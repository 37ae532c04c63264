import FabricaNet.Ringpool.MultiPool

/-!
# Pool configurations

The maps from buffer sizes to ring capacities that `NewMultiSizeRingPool` is given. It accepts a map
when every size is positive and every capacity is a power of two, in whichever order it comes to the
entries (`newMultiSizeRingPool_of_valid`). The pool has the sizes and capacities of the map, and
`Alloc` and `Free` do not change them.
-/

namespace FabricaNet.Ringpool

open Go

/-- `map[int]uint64`, with the order in which `range` comes to its entries. -/
abbrev SizeCapacityMap := AList fun _ : Int => UInt64

/-- What `NewRingBufferPool` asks of its arguments. -/
def ValidEntry (size : Int) (capacity : UInt64) : Prop :=
  0 < size ∧ capacity.toNat.isPowerOfTwo

/-- Every size is positive, and every capacity is a power of two. -/
def ValidMap (m : SizeCapacityMap) : Prop := ∀ e ∈ m.entries, ValidEntry e.1 e.2

/-- The pools have the sizes and capacities of the map. -/
def Configured (mp : MultiSizeRingPool) (m : SizeCapacityMap) : Prop :=
  ∀ size, (mp.pools.lookup size).map (fun pool => pool.capacity) = m.lookup size

/-! ## Which maps are accepted -/

/-- The test of `NewRingBufferPool`. -/
theorem isPowerOfTwo_iff (capacity : UInt64) :
    capacity.toNat.isPowerOfTwo ↔ ¬(capacity = 0 ∨ capacity &&& (capacity - 1) ≠ 0) := by
  by_cases h0 : capacity = 0
  · rw [h0]
    refine iff_of_false ?_ fun h => h (Or.inl rfl)
    rintro ⟨k, hk⟩
    exact absurd hk.symm (Nat.two_pow_pos k).ne'
  · have hne : capacity.toNat ≠ 0 := fun h => h0 (UInt64.toNat_inj.mp h)
    have hone : (1 : UInt64) ≤ capacity := UInt64.le_iff_toNat_le.mpr (Nat.pos_of_ne_zero hne)
    have hand : (capacity &&& (capacity - 1)).toNat = capacity.toNat &&& (capacity.toNat - 1) := by
      rw [UInt64.toNat_and, UInt64.toNat_sub_of_le _ _ hone]
      rfl
    rw [← Nat.and_sub_one_eq_zero_iff_isPowerOfTwo hne, ← hand]
    simp only [h0, false_or, not_not]
    exact UInt64.toNat_inj (b := 0)

instance ValidEntry.decidable (size : Int) (capacity : UInt64) :
    Decidable (ValidEntry size capacity) :=
  decidable_of_iff _ (and_congr Iff.rfl (isPowerOfTwo_iff capacity).symm)

instance ValidMap.decidable (m : SizeCapacityMap) : Decidable (ValidMap m) :=
  inferInstanceAs (Decidable (∀ e ∈ m.entries, ValidEntry e.1 e.2))

theorem newRingBufferPool_of_valid {size : Int} {capacity : UInt64} (h : ValidEntry size capacity)
    (pick : Nat → Option Nat) (heap : Heap) :
    ∃ pool heap', newRingBufferPool size capacity pick heap = .ok (pool, heap') ∧
      pool.capacity = capacity := by
  unfold newRingBufferPool
  rw [dif_neg (by have := h.1; omega), dif_neg ((isPowerOfTwo_iff capacity).mp h.2)]
  exact ⟨_, _, rfl, rfl⟩

theorem newRingBufferPool_of_not_valid {size : Int} {capacity : UInt64}
    (h : ¬ValidEntry size capacity) (pick : Nat → Option Nat) (heap : Heap) :
    ∃ e, newRingBufferPool size capacity pick heap = .error e := by
  unfold newRingBufferPool
  split
  · exact ⟨_, rfl⟩
  · next hsize =>
    rw [dif_pos]
    · exact ⟨_, rfl⟩
    · by_contra hcap
      exact h ⟨by omega, (isPowerOfTwo_iff capacity).mpr hcap⟩

theorem newRingBufferPool_ok_iff (size : Int) (capacity : UInt64) (pick : Nat → Option Nat)
    (heap : Heap) :
    (∃ pool heap', newRingBufferPool size capacity pick heap = .ok (pool, heap')) ↔
      ValidEntry size capacity := by
  constructor
  · rintro ⟨pool, heap', hok⟩
    by_contra hbad
    obtain ⟨e, herr⟩ := newRingBufferPool_of_not_valid hbad pick heap
    rw [hok] at herr
    cases herr
  · intro hvalid
    obtain ⟨pool, heap', hok, -⟩ := newRingBufferPool_of_valid hvalid pick heap
    exact ⟨pool, heap', hok⟩

theorem newRingBufferPool_capacity {size : Int} {capacity : UInt64} {pick : Nat → Option Nat}
    {heap heap' : Heap} {pool : RingBufferPool}
    (hok : newRingBufferPool size capacity pick heap = .ok (pool, heap')) :
    pool.capacity = capacity := by
  have hvalid := (newRingBufferPool_ok_iff size capacity pick heap).mp ⟨pool, heap', hok⟩
  obtain ⟨pool', heap'', hok', hcap⟩ := newRingBufferPool_of_valid hvalid pick heap
  cases hok.symm.trans hok'
  exact hcap

/-- The loop goes through a valid map, and adds a pool for each entry. -/
theorem makePools_of_valid (pick : Int → Nat → Option Nat) {m : List ((_ : Int) × UInt64)}
    (hm : ∀ e ∈ m, ValidEntry e.1 e.2) (hkeys : m.NodupKeys) (pools : PoolMap) (sizes : List Int)
    (heap : Heap) :
    ∃ pools' sizes' heap', makePools pick m pools sizes heap = .ok (pools', sizes', heap') ∧
      ∀ size, (pools'.lookup size).map (fun pool => pool.capacity) =
        ((m.dlookup size).or ((pools.lookup size).map fun pool => pool.capacity)) := by
  induction m generalizing pools sizes heap with
  | nil => exact ⟨pools, sizes, heap, rfl, fun size => by simp⟩
  | cons e rest ih =>
    obtain ⟨size, capacity⟩ := e
    obtain ⟨pool, heap₁, hnew, hcap⟩ :=
      newRingBufferPool_of_valid (hm ⟨size, capacity⟩ (List.mem_cons_self ..)) (pick size) heap
    obtain ⟨hfresh, hrest⟩ := List.nodupKeys_cons.mp hkeys
    obtain ⟨pools', sizes', heap', hok, hlookup⟩ :=
      ih (fun e he => hm e (List.mem_cons_of_mem _ he)) hrest (pools.insert size pool)
        (sizes ++ [size]) heap₁
    refine ⟨pools', sizes', heap', ?_, fun n => ?_⟩
    · simp only [makePools, hnew]
      exact hok
    · rw [hlookup n]
      by_cases hn : n = size
      · subst hn
        rw [List.dlookup_cons_eq, List.dlookup_eq_none.mpr hfresh, AList.lookup_insert]
        simp [hcap]
      · rw [List.dlookup_cons_ne _ _ hn, AList.lookup_insert_ne hn]

theorem makePools_of_not_valid (pick : Int → Nat → Option Nat) {m : List ((_ : Int) × UInt64)}
    (hm : ¬∀ e ∈ m, ValidEntry e.1 e.2) (pools : PoolMap) (sizes : List Int) (heap : Heap) :
    ∃ e, makePools pick m pools sizes heap = .error e := by
  induction m generalizing pools sizes heap with
  | nil => exact absurd (fun e he => absurd he List.not_mem_nil) hm
  | cons entry rest ih =>
    obtain ⟨size, capacity⟩ := entry
    unfold makePools
    split
    · next e hnew => exact ⟨e, rfl⟩
    · next pool heap' hnew =>
      refine ih (fun hrest => hm fun e he => ?_) _ _ _
      rcases List.mem_cons.mp he with rfl | he
      · by_contra hbad
        obtain ⟨e, herr⟩ := newRingBufferPool_of_not_valid hbad (pick size) heap
        rw [hnew] at herr
        cases herr
      · exact hrest e he

/-- **A valid map is accepted, and the pool is configured by it.** -/
theorem newMultiSizeRingPool_of_valid {m : SizeCapacityMap} (hm : ValidMap m)
    (pick : Int → Nat → Option Nat) (heap : Heap) :
    ∃ mp heap', newMultiSizeRingPool m pick heap = .ok (mp, heap') ∧ Configured mp m := by
  obtain ⟨pools, sizes, heap', hok, hlookup⟩ :=
    makePools_of_valid pick hm m.nodupKeys ∅ [] heap
  unfold newMultiSizeRingPool
  split
  · next e herr =>
    rw [hok] at herr
    cases herr
  · next pools₁ sizes₁ heap₁ hok₁ =>
    cases hok.symm.trans hok₁
    refine ⟨_, _, rfl, fun size => ?_⟩
    rw [hlookup size, AList.lookup_empty]
    exact Option.or_none

theorem newMultiSizeRingPool_ne_error {m : SizeCapacityMap} (hm : ValidMap m)
    (pick : Int → Nat → Option Nat) (heap : Heap) (e : Err) :
    newMultiSizeRingPool m pick heap ≠ .error e := by
  obtain ⟨mp, heap', hok, -⟩ := newMultiSizeRingPool_of_valid hm pick heap
  rw [hok]
  nofun

theorem newMultiSizeRingPool_of_not_valid {m : SizeCapacityMap} (hm : ¬ValidMap m)
    (pick : Int → Nat → Option Nat) (heap : Heap) :
    ∃ e, newMultiSizeRingPool m pick heap = .error e := by
  obtain ⟨e, herr⟩ := makePools_of_not_valid pick hm ∅ [] heap
  unfold newMultiSizeRingPool
  split
  · exact ⟨_, rfl⟩
  · next hok =>
    rw [herr] at hok
    cases hok

/-! ## What `Alloc` and `Free` leave alone -/

section Use

variable {mp : MultiSizeRingPool} {m : SizeCapacityMap}

theorem Configured.setPool (h : Configured mp m) {size : Int} {pool pool' : RingBufferPool}
    (hpool : mp.pools.lookup size = some pool) (hring : pool'.toRing = pool.toRing) :
    Configured (mp.setPool hpool pool' hring) m := by
  intro n
  show ((mp.pools.insert size pool').lookup n).map _ = _
  by_cases hn : n = size
  · subst hn
    rw [AList.lookup_insert, ← h n, hpool]
    exact congrArg (fun r : Ring => some r.capacity) hring
  · rw [AList.lookup_insert_ne hn]
    exact h n

theorem Configured.alloc (h : Configured mp m) (heap : Heap) (size : Int) :
    Configured (mp.alloc heap size).2.1 m := by
  rcases mp.alloc_least heap size with ⟨n, pool, hpool, -, heq⟩ | ⟨-, heq⟩
  · rw [heq]
    exact h.setPool hpool (pool.alloc_toRing heap size)
  · rw [heq]
    exact h

theorem Configured.free (h : Configured mp m) (heap : Heap) (buf : Slice) :
    Configured (mp.free heap buf).1 m := by
  unfold MultiSizeRingPool.free
  split
  · next pool hpool => exact h.setPool hpool (pool.free_toRing heap buf)
  · exact h

end Use

/-! ## The default -/

/-- The map of `Default`. -/
def defaultMap : SizeCapacityMap where
  entries := [⟨64, 8192 * 2⟩, ⟨128, 8192⟩, ⟨256, 4096⟩, ⟨512, 2048⟩, ⟨1024, 1024⟩, ⟨4096, 256⟩]
  nodupKeys := by
    unfold List.NodupKeys
    decide

theorem validMap_defaultMap : ValidMap defaultMap := by decide

end FabricaNet.Ringpool
