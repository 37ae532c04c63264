import FabricaNet.Frame.Roundtrip
import FabricaNet.Ringpool.SizeClass

/-!
# The statistics of the KCP codec

`PoolHits` and `PoolMisses` are meant to tell the buffers of the size classes from those that no
size class could serve. `Decode` does not see where a buffer comes from; it compares the capacity
with the length.

* A buffer of a size class has the capacity of the class. It counts as a hit only if the frame fills
  it, and as a miss otherwise.
* A buffer from the heap is made to measure. It always counts as a hit.

So the two counters are right as long as every length that is asked for is one of the sizes
(`eachState_exact_iff`). The errors and the totals are always right: each exit of `Decode` counts
once.
-/

namespace FabricaNet.Frame.Kcp

open Go Lib Xnet Ringpool

/-- `ResetCodecStats`. -/
def resetCodecStats (_ : Stats) : Stats := {}

/-- The length that `Decode` allocates a buffer for, if it gets as far as that. -/
def allocLen (s : Bytes) : Option Int :=
  if 4 ≤ s.length ∧ badPackLen (int32 (s.take 4)) = false then some (int32 (s.take 4)).toInt
  else none

/-- Some size class has buffers that are large enough. -/
def fitsClass (m : SizeCapacityMap) (n : Int) : Bool := m.keys.any fun size => n ≤ size

/-- What the statistics are meant to count: the calls of `Decode`, by what became of them. -/
structure Tally where
  /-- the buffer was taken from a size class -/
  fromClass : Nat := 0
  /-- the buffer was made on the heap, since it fits no size class -/
  fromHeap : Nat := 0
  /-- the call failed before it allocated -/
  early : Nat := 0
  /-- the call returned an error -/
  errors : Nat := 0
deriving DecidableEq, Repr

/-- Counts the buffer of a call. -/
def Tally.buffer (m : SizeCapacityMap) (t : Tally) : Option Int → Tally
  | some n =>
    if fitsClass m n then { t with fromClass := t.fromClass + 1 }
    else { t with fromHeap := t.fromHeap + 1 }
  | none => { t with early := t.early + 1 }

/-- Counts the result of a call. -/
def Tally.result (t : Tally) : Decoded → Tally
  | .err _ => { t with errors := t.errors + 1 }
  | .ok _ | .panic => t

/-- The codecs of the package, with what has happened since the last reset. -/
structure StatsRun where
  stats : Stats
  world : World
  tally : Tally

inductive StatsAct where
  | encode (w : Writer) (pack : Pack)
  /-- `Decode`, with the bytes still to come on its connection -/
  | decode (s : Bytes)
  | resetCodecStats
  /-- the buffers are used and freed, and other code uses the heap -/
  | pool (a : PoolAct)

namespace StatsRun

/-- One call after the other; a `Decode` that panics ends the run. -/
def step (m : SizeCapacityMap) (s : StatsRun) : StatsAct → Option StatsRun
  | .encode w pack =>
    let (_, stats, _) := encode s.stats w pack
    some { s with stats := stats }
  | .decode bytes =>
    match Kcp.decode s.stats s.world bytes with
    | (.panic, _, _, _) => none
    | (d, stats, world, _) =>
      some { stats := stats, world := world
             tally := (s.tally.buffer m (allocLen bytes)).result d }
  | .resetCodecStats => some { s with stats := Kcp.resetCodecStats s.stats, tally := {} }
  | .pool a =>
    (PoolRun.step ⟨s.world.pool, s.world.heap⟩ a).map fun p =>
      { s with world := ⟨p.pool, p.heap⟩ }

/-- The errors and the totals are right. -/
structure TotalsExact (s : StatsRun) : Prop where
  decodeErrors : s.stats.decodeErrors = UInt64.ofNat s.tally.errors
  totalDecodes :
    s.stats.totalDecodes = s.stats.poolHits + s.stats.poolMisses + UInt64.ofNat s.tally.early

/-- The statistics count what they say. -/
structure Exact (s : StatsRun) : Prop extends TotalsExact s where
  poolHits : s.stats.poolHits = UInt64.ofNat s.tally.fromClass
  poolMisses : s.stats.poolMisses = UInt64.ofNat s.tally.fromHeap

/-- A call that allocates asks for the size of a class. -/
def AsksForSize (m : SizeCapacityMap) : StatsAct → Prop
  | .decode bytes => ∀ n, allocLen bytes = some n → n ∈ m
  | _ => True

end StatsRun

/-! ## One call -/

/-- The hit or the miss. -/
def Stats.countBuffer (st : Stats) (cap : Nat) (n : Int) : Stats :=
  if (cap : Int) = n then { st with poolHits := st.poolHits + 1 }
  else { st with poolMisses := st.poolMisses + 1 }

theorem Stats.countBuffer_decodeErrors (st : Stats) (cap : Nat) (n : Int) :
    (st.countBuffer cap n).decodeErrors = st.decodeErrors := by
  unfold countBuffer
  split <;> rfl

theorem Tally.buffer_some_errors (m : SizeCapacityMap) (t : Tally) (n : Int) :
    (t.buffer m (some n)).errors = t.errors := by
  unfold buffer
  dsimp only
  split <;> rfl

theorem Tally.buffer_some_early (m : SizeCapacityMap) (t : Tally) (n : Int) :
    (t.buffer m (some n)).early = t.early := by
  unfold buffer
  dsimp only
  split <;> rfl

variable (st : Stats) (w : World) {s : Bytes}

theorem allocLen_pos {n : Int} (h : allocLen s = some n) : 0 < n := by
  unfold allocLen at h
  split at h
  next hgood =>
    cases h
    have hpos := (badPackLen_eq_false.mp hgood.2).1
    omega
  next => cases h

theorem decode_of_none (h : allocLen s = none) :
    ∃ e rest, decode st w s =
      (.err e, { st with totalDecodes := st.totalDecodes + 1 }.decodeError, w, rest) := by
  unfold allocLen at h
  split at h
  next => cases h
  next hbad =>
    unfold decode
    by_cases hlen : 4 ≤ s.length
    · have hpack : badPackLen (int32 (s.take 4)) = true := by
        rw [← Bool.not_eq_false]
        exact fun hgood => hbad ⟨hlen, hgood⟩
      simp only [readFull, if_pos hlen, hpack, if_true]
      exact ⟨_, _, rfl⟩
    · simp only [readFull, if_neg hlen]
      exact ⟨_, _, rfl⟩

/-- A call that allocates panics, or returns the buffer with one counter moved on. -/
theorem decode_of_some {n : Int} (h : allocLen s = some n) :
    (decode st w s).1 = .panic ∨
    ∃ bytesIn bytes rest, decode st w s =
      (.ok (w.pool.alloc w.heap n).1,
        { st with totalDecodes := st.totalDecodes + 1, totalBytesIn := bytesIn }.countBuffer
          (w.pool.alloc w.heap n).1.cap n,
        ⟨(w.pool.alloc w.heap n).2.1,
          (w.pool.alloc w.heap n).2.2.write (w.pool.alloc w.heap n).1 bytes⟩, rest) := by
  unfold allocLen at h
  split at h
  next hgood =>
    cases h
    unfold decode
    simp only [readFull, if_pos hgood.1, hgood.2, Bool.false_eq_true, if_false, readInto]
    by_cases hbody : (w.pool.alloc w.heap (int32 (s.take 4)).toInt).1.len ≤ (s.drop 4).length
    · simp only [if_pos hbody]
      exact Or.inr ⟨_, _, _, rfl⟩
    · simp only [if_neg hbody]
      exact Or.inl trivial
  next => cases h

theorem encode_stats (st : Stats) (w : Writer) (pack : Pack) :
    (encode st w pack).2.1.decodeErrors = st.decodeErrors ∧
    (encode st w pack).2.1.totalDecodes = st.totalDecodes ∧
    (encode st w pack).2.1.poolHits = st.poolHits ∧
    (encode st w pack).2.1.poolMisses = st.poolMisses := by
  unfold encode
  dsimp only
  split
  · exact ⟨rfl, rfl, rfl, rfl⟩
  · split
    · exact ⟨rfl, rfl, rfl, rfl⟩
    · split <;> exact ⟨rfl, rfl, rfl, rfl⟩

theorem fitsClass_iff {m : SizeCapacityMap} {n : Int} :
    fitsClass m n = true ↔ ∃ size ∈ m, n ≤ size := by
  simp only [fitsClass, List.any_eq_true, AList.mem_keys, decide_eq_true_eq]

/--
The comparison of `Decode` agrees with the origin of the buffer exactly for the sizes of the
classes.
-/
theorem cap_eq_iff_fits_iff {m : SizeCapacityMap} {n : Int} {cap : Nat} (hn : 0 < n)
    (hcap : SizeClass m n cap) : ((cap : Int) = n ↔ fitsClass m n = true) ↔ n ∈ m := by
  rw [fitsClass_iff]
  rcases hcap with ⟨hzero, -⟩ | ⟨-, hleast⟩ | ⟨-, hall, hcap⟩
  · omega
  · -- the class is the least one, so it has the length itself if any does
    have hfits : ∃ size ∈ m, n ≤ size := ⟨cap, hleast.1⟩
    simp only [hfits, iff_true]
    constructor
    · intro h
      rw [← h]
      exact hleast.1.1
    · intro h
      exact Int.le_antisymm (hleast.2 ⟨h, Int.le_refl n⟩) hleast.1.2
  · -- a buffer made to measure
    have hnot : ¬∃ size ∈ m, n ≤ size := fun ⟨size, hsize, hle⟩ =>
      absurd (hall size hsize) (Int.not_lt.mpr hle)
    simp only [hnot, hcap, true_iff, false_iff]
    exact fun h => absurd (hall n h) (Int.lt_irrefl n)

/-! ## Runs -/

namespace StatsRun

variable {m : SizeCapacityMap} {s s' : StatsRun} {a : StatsAct}

/-- What a step can do. -/
inductive Steps (m : SizeCapacityMap) (s : StatsRun) : StatsAct → StatsRun → Prop
  | encode (w : Writer) (pack : Pack) :
      Steps m s (.encode w pack) { s with stats := (Kcp.encode s.stats w pack).2.1 }
  | early {bytes : Bytes} (none : allocLen bytes = none) :
      Steps m s (.decode bytes)
        { s with
          stats := { s.stats with totalDecodes := s.stats.totalDecodes + 1 }.decodeError
          tally := { s.tally with early := s.tally.early + 1, errors := s.tally.errors + 1 } }
  | pack {bytes : Bytes} {n : Int} (some : allocLen bytes = some n) (bytesIn : UInt64)
      (read : Bytes) :
      Steps m s (.decode bytes)
        { stats := { s.stats with
            totalDecodes := s.stats.totalDecodes + 1
            totalBytesIn := bytesIn }.countBuffer (s.world.pool.alloc s.world.heap n).1.cap n
          world := ⟨(s.world.pool.alloc s.world.heap n).2.1,
            (s.world.pool.alloc s.world.heap n).2.2.write
              (s.world.pool.alloc s.world.heap n).1 read⟩
          tally := s.tally.buffer m (.some n) }
  | resetCodecStats :
      Steps m s .resetCodecStats { s with stats := Kcp.resetCodecStats s.stats, tally := {} }
  | pool {a : PoolAct} {p : PoolRun}
      (used : PoolRun.step ⟨s.world.pool, s.world.heap⟩ a = .some p) :
      Steps m s (.pool a) { s with world := ⟨p.pool, p.heap⟩ }

theorem steps_of_step (h : step m s a = some s') : Steps m s a s' := by
  cases a with
  | encode w pack =>
    cases h
    exact .encode w pack
  | decode bytes =>
    simp only [step] at h
    cases hlen : allocLen bytes with
    | none =>
      obtain ⟨e, rest, heq⟩ := decode_of_none s.stats s.world hlen
      rw [heq] at h
      cases h
      rw [hlen]
      exact .early hlen
    | some n =>
      rcases decode_of_some s.stats s.world hlen with
        hpanic | ⟨bytesIn, read, rest, heq⟩
      · rcases hd : Kcp.decode s.stats s.world bytes with ⟨d, stats, world, rest⟩
        rw [hd] at hpanic h
        cases hpanic
        cases h
      · rw [heq] at h
        cases h
        rw [hlen]
        exact .pack hlen bytesIn read
  | resetCodecStats =>
    cases h
    exact .resetCodecStats
  | pool a =>
    obtain ⟨p, hp, rfl⟩ := Option.map_eq_some_iff.mp h
    exact .pool hp

/-- The pools stay those of the map. -/
theorem sound_step (hs : PoolRun.Sound m ⟨s.world.pool, s.world.heap⟩) (h : Steps m s a s') :
    PoolRun.Sound m ⟨s'.world.pool, s'.world.heap⟩ := by
  cases h with
  | encode | early | resetCodecStats => exact hs
  | @pack _ n =>
    have h := PoolRun.sound_alloc hs n
    exact ⟨h.configured, h.tidy⟩
  | pool used => exact (PoolRun.sound_step hs used).1

theorem totalsExact_step (ht : TotalsExact s) (h : Steps m s a s') : TotalsExact s' := by
  cases h with
  | encode w pack =>
    obtain ⟨herrors, htotal, hhits, hmisses⟩ := encode_stats s.stats w pack
    exact ⟨herrors.trans ht.decodeErrors, by
      simp only [htotal, hhits, hmisses]
      exact ht.totalDecodes⟩
  | early none =>
    refine ⟨?_, ?_⟩
    · simp only [Stats.decodeError, ht.decodeErrors, UInt64.ofNat_add]
      rfl
    · simp only [Stats.decodeError, ht.totalDecodes, UInt64.ofNat_add]
      grind
  | @pack bytes n hlen bytesIn read =>
    refine ⟨?_, ?_⟩
    · rw [Tally.buffer_some_errors, Stats.countBuffer_decodeErrors]
      exact ht.decodeErrors
    · simp only [Tally.buffer_some_early, Stats.countBuffer]
      split
      · simp only [ht.totalDecodes]
        grind
      · simp only [ht.totalDecodes]
        grind
  | resetCodecStats => exact ⟨rfl, rfl⟩
  | pool => exact ⟨ht.decodeErrors, ht.totalDecodes⟩

/-- A buffer keeps the two counters right exactly if its length is a size. -/
theorem exact_pack_iff (st : Stats) (t : Tally) {n : Int} {cap : Nat} (hn : 0 < n)
    (hcap : SizeClass m n cap) (hhits : st.poolHits = UInt64.ofNat t.fromClass)
    (hmisses : st.poolMisses = UInt64.ofNat t.fromHeap) :
    ((st.countBuffer cap n).poolHits = UInt64.ofNat (t.buffer m (some n)).fromClass ∧
      (st.countBuffer cap n).poolMisses = UInt64.ofNat (t.buffer m (some n)).fromHeap) ↔
      n ∈ m := by
  rw [← cap_eq_iff_fits_iff hn hcap]
  by_cases heq : (cap : Int) = n <;> by_cases hfits : fitsClass m n = true
  · simp [Stats.countBuffer, Tally.buffer, heq, hfits, hhits, hmisses, UInt64.ofNat_add]
  · simp [Stats.countBuffer, Tally.buffer, heq, hfits, hhits, hmisses]
  · simp [Stats.countBuffer, Tally.buffer, heq, hfits, hhits, hmisses]
  · simp [Stats.countBuffer, Tally.buffer, heq, hfits, hhits, hmisses, UInt64.ofNat_add]

theorem exact_step_iff (hpos : ∀ size ∈ m, 0 < size)
    (hs : PoolRun.Sound m ⟨s.world.pool, s.world.heap⟩) (he : Exact s) (h : Steps m s a s') :
    Exact s' ↔ AsksForSize m a := by
  have ht := totalsExact_step he.toTotalsExact h
  cases h with
  | encode w pack =>
    obtain ⟨-, -, hhits, hmisses⟩ := encode_stats s.stats w pack
    exact iff_of_true ⟨ht, hhits.trans he.poolHits, hmisses.trans he.poolMisses⟩ trivial
  | early hlen =>
    refine iff_of_true ⟨ht, he.poolHits, he.poolMisses⟩ fun n hn => ?_
    rw [hlen] at hn
    cases hn
  | @pack bytes n hlen bytesIn read =>
    have hn := allocLen_pos hlen
    have hcap := (MultiSizeRingPool.alloc_takes hs.configured hpos hs.tidy (Int.le_of_lt hn)).1
    have hasks : AsksForSize m (.decode bytes) ↔ n ∈ m := by
      simp only [AsksForSize, hlen, Option.some.injEq, forall_eq']
    have hcounters := exact_pack_iff
      { s.stats with totalDecodes := s.stats.totalDecodes + 1, totalBytesIn := bytesIn } s.tally
      hn hcap he.poolHits he.poolMisses
    rw [hasks, ← hcounters]
    exact ⟨fun h => ⟨h.poolHits, h.poolMisses⟩, fun h => ⟨ht, h.1, h.2⟩⟩
  | resetCodecStats => exact iff_of_true ⟨ht, rfl, rfl⟩ trivial
  | pool => exact iff_of_true ⟨ht, he.poolHits, he.poolMisses⟩ trivial

/-- A new pool and new statistics. -/
def start (mp : MultiSizeRingPool) (heap : Heap) : StatsRun :=
  { stats := {}, world := ⟨mp, heap⟩, tally := {} }

theorem exact_start (mp : MultiSizeRingPool) (heap : Heap) : Exact (start mp heap) :=
  ⟨⟨rfl, rfl⟩, rfl, rfl⟩

/--
**The errors and the totals are right at all times. The hits and the misses are right at all times
exactly when every call that allocates asks for the size of a class.**
-/
theorem eachState_exact_iff {pick : Int → Nat → Option Nat} {h heap : Heap}
    {mp : MultiSizeRingPool} (hnew : newMultiSizeRingPool m pick h = .ok (mp, heap))
    (acts : List StatsAct) :
    EachState (step m) TotalsExact (start mp heap) acts ∧
      (EachState (step m) Exact (start mp heap) acts ↔
        EachStep (step m) (fun _ a _ => AsksForSize m a) (start mp heap) acts) := by
  have hpos : ∀ size ∈ m, 0 < size := fun size hsize => (validMap_of_ok hnew).pos hsize
  constructor
  · exact eachState_of_remaining (I := fun s _ => TotalsExact s)
      (fun _ _ _ _ ht hstep => totalsExact_step ht (steps_of_step hstep)) (fun _ _ ht => ht)
      (exact_start mp heap).toTotalsExact
  · exact eachState_iff_of_step
      (I := fun s _ => PoolRun.Sound m ⟨s.world.pool, s.world.heap⟩)
      (fun _ _ _ _ hs hstep => sound_step hs (steps_of_step hstep))
      (fun _ _ _ _ hs he hstep => exact_step_iff hpos hs he (steps_of_step hstep))
      (newMultiSizeRingPool_sound hnew) (exact_start mp heap)

/-- One size class of 2 bytes, and a frame that fills its buffer. -/
theorem eachState_exact_iff_filled :
    ∃ mp heap, newMultiSizeRingPool (AList.singleton (2 : Int) (1 : UInt64)) (fun _ _ => none)
        ⟨0, fun _ => []⟩ = .ok (mp, heap) ∧
      EachState (step (AList.singleton 2 1)) Exact (start mp heap)
        [.decode [0, 0, 0, 2, 7, 8], .decode [0, 0]] := by
  have hnew : newMultiSizeRingPool (AList.singleton (2 : Int) (1 : UInt64)) (fun _ _ => none)
    ⟨0, fun _ => []⟩ = .ok (_, _) := rfl
  refine ⟨_, _, hnew, (eachState_exact_iff hnew _).2.mpr ?_⟩
  intro s₁ h₁
  refine ⟨?_, ?_⟩
  · intro n hn
    cases hn
    decide
  · intro s₂ h₂
    refine ⟨fun n hn => ?_, trivial⟩
    cases hn

/-- The two counters, and what they should be. -/
def buffers (s : StatsRun) : (UInt64 × UInt64) × Nat × Nat :=
  ((s.stats.poolHits, s.stats.poolMisses), s.tally.fromClass, s.tally.fromHeap)

theorem not_exact_of_buffers {b : (UInt64 × UInt64) × Nat × Nat}
    (h : (step m s a).map buffers = some b) (hne : b.1.1 ≠ UInt64.ofNat b.2.1) :
    ¬EachState (step m) Exact s [a] := by
  intro hexact
  obtain ⟨s', hs', rfl⟩ := Option.map_eq_some_iff.mp h
  exact hne (hexact.2 s' hs').1.poolHits

/--
One size class of 2 bytes. A frame of 1 byte gets the buffer of the class and counts as a miss; a
frame of 3 bytes gets one from the heap and counts as a hit.
-/
theorem hits_and_misses_swapped :
    ∃ mp heap, newMultiSizeRingPool (AList.singleton (2 : Int) (1 : UInt64)) (fun _ _ => none)
        ⟨0, fun _ => []⟩ = .ok (mp, heap) ∧
      (step (AList.singleton 2 1) (start mp heap) (.decode [0, 0, 0, 1, 7])).map buffers =
        some ((0, 1), 1, 0) ∧
      (step (AList.singleton 2 1) (start mp heap) (.decode [0, 0, 0, 3, 7, 8, 9])).map buffers =
        some ((1, 0), 0, 1) ∧
      ¬EachState (step (AList.singleton 2 1)) Exact (start mp heap)
        [.decode [0, 0, 0, 1, 7]] := by
  refine ⟨_, _, rfl, by decide +kernel, by decide +kernel, ?_⟩
  exact not_exact_of_buffers (b := ((0, 1), 1, 0)) (by decide +kernel) (by decide)

end StatsRun

end FabricaNet.Frame.Kcp
