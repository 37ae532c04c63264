import FabricaNet.Ringpool.Counters

/-!
# The statistics of a ring

`Stats` loads five atomics one after the other, `head` before `tail`, and reports
`capacity - (head - tail)` as the number of available buffers. In between, `Alloc` and `Free` go on.

`head` is not ahead of `tail + capacity` when it is loaded, and `tail` only grows, so the difference
is never too large. But `tail` may have passed the `head` that was loaded. Then `head - tail` wraps
around, and more buffers are reported as available than the ring has. This is the only way to get a
report above `RingSize` (`eachState_bounded_iff`).
-/

namespace FabricaNet.Ringpool

open Go Lib

/-- `PoolStats`. -/
structure PoolStats where
  allocCount : UInt64
  freeCount : UInt64
  fallbackCount : UInt64
  ringSize : UInt64
  bufferSize : Nat
  available : UInt64
deriving DecidableEq, Repr

/-- `available`, on the values that it has loaded. -/
def Ring.availableOf (r : Ring) (head tail : UInt64) : UInt64 := r.capacity - (head - tail)

/-- `Stats`, when nothing happens during the call. -/
def RingBufferPool.stats (p : RingBufferPool) : PoolStats :=
  { allocCount := p.allocCount, freeCount := p.freeCount, fallbackCount := p.fallbackCount
    ringSize := p.capacity, bufferSize := p.bufferSize, available := p.available }

/-- The load that a call of `Stats` does next, with what it has loaded. -/
inductive StatsPc where
  /-- no call, or `allocCount.Load()` of the next one -/
  | idle
  /-- `freeCount.Load()` -/
  | loadFree (allocCount : UInt64)
  /-- `fallbackCount.Load()` -/
  | loadFallback (allocCount freeCount : UInt64)
  /-- `head.Load()` -/
  | loadHead (allocCount freeCount fallbackCount : UInt64)
  /-- `tail.Load()` -/
  | loadTail (allocCount freeCount fallbackCount head : UInt64)

/-- One load, and the report after the last one. -/
def StatsPc.next (p : RingBufferPool) : StatsPc → StatsPc × Option PoolStats
  | .idle => (.loadFree p.allocCount, none)
  | .loadFree allocCount => (.loadFallback allocCount p.freeCount, none)
  | .loadFallback allocCount freeCount => (.loadHead allocCount freeCount p.fallbackCount, none)
  | .loadHead allocCount freeCount fallbackCount =>
    (.loadTail allocCount freeCount fallbackCount p.head, none)
  | .loadTail allocCount freeCount fallbackCount head =>
    (.idle, some
      { allocCount := allocCount, freeCount := freeCount, fallbackCount := fallbackCount
        ringSize := p.capacity, bufferSize := p.bufferSize
        available := p.availableOf head p.tail })

/-- The `head` that a call has loaded. -/
def StatsPc.loaded : StatsPc → Option UInt64
  | .loadTail _ _ _ head => some head
  | _ => none

/-- The pool in use, and goroutines that call `Stats`. -/
structure Monitored where
  machine : Machine
  monitors : Nat → StatsPc
  /-- what the calls have returned, the latest first -/
  reports : List PoolStats

inductive MonitorAct where
  /-- a step of the goroutines that use the pool -/
  | use (a : Act)
  /-- the next load of the monitor `k` -/
  | load (k : Nat)

/-- The steps of the goroutines that use the pool. -/
def MonitorAct.uses (acts : List MonitorAct) : List Act :=
  acts.filterMap fun
    | .use a => some a
    | .load _ => none

namespace Monitored

def init (pool : RingBufferPool) (heap : Heap) : Monitored :=
  { machine := Machine.init pool heap, monitors := fun _ => .idle, reports := [] }

def step (s : Monitored) : MonitorAct → Option Monitored
  | .use a => (s.machine.step a).map fun machine => { s with machine := machine }
  | .load k =>
    let (pc, report) := (s.monitors k).next s.machine.pool
    some { s with
      monitors := Function.update s.monitors k pc
      reports := report.toList ++ s.reports }

/-- `RingSize - Available` does not underflow, for any report. -/
def Bounded (s : Monitored) : Prop := ∀ report ∈ s.reports, report.available ≤ report.ringSize

/-- When `tail` is loaded, it is within the ring below the `head` that was loaded. -/
def LoadsWithin (s : Monitored) : MonitorAct → Prop
  | .use _ => True
  | .load k => ∀ head ∈ (s.monitors k).loaded, head - s.machine.pool.tail ≤ s.machine.pool.capacity

/-- When `tail` is loaded, it has not passed the `head` that was loaded. -/
def NotOvertaken (s : Monitored) : MonitorAct → Prop
  | .use _ => True
  | .load k => ∀ head ∈ (s.monitors k).loaded, s.machine.pool.tail.toNat ≤ head.toNat

instance (s : Monitored) (a : MonitorAct) : Decidable (s.NotOvertaken a) :=
  match a with
  | .use _ => isTrue trivial
  -- by the option; `UInt64` is finite too, and would be enumerated
  | .load k => Option.decidableForallMem (s.monitors k).loaded

end Monitored

/-! ## The report -/

theorem Ring.availableOf_le_iff (r : Ring) (head tail : UInt64) :
    r.availableOf head tail ≤ r.capacity ↔ head - tail ≤ r.capacity := by
  rw [availableOf, UInt64.le_iff_toNat_le, UInt64.le_iff_toNat_le, UInt64.toNat_sub]
  have hcap := r.capacity.toNat_lt
  have hdiff := (head - tail).toNat_lt
  omega

/-- The difference of two values that are in order as long as the smaller one grows. -/
theorem Ring.sub_le_iff (r : Ring) {head tail : UInt64}
    (hle : head.toNat ≤ tail.toNat + r.capacity.toNat)
    (hwrap : tail.toNat + r.capacity.toNat < 2 ^ 64) :
    head - tail ≤ r.capacity ↔ tail.toNat ≤ head.toNat := by
  rw [UInt64.le_iff_toNat_le, UInt64.toNat_sub]
  have hhead := head.toNat_lt
  omega

theorem StatsPc.next_available_le_iff (p : RingBufferPool) (pc : StatsPc) :
    (∀ report ∈ (pc.next p).2, report.available ≤ report.ringSize) ↔
      ∀ head ∈ pc.loaded, head - p.tail ≤ p.capacity := by
  cases pc with
  | loadTail allocCount freeCount fallbackCount head =>
    simp only [next, loaded, Option.mem_some, forall_eq', Ring.availableOf_le_iff]
  | idle | loadFree | loadFallback | loadHead => simp [next, loaded]

namespace Machine

variable {s s' : Machine}

theorem next_head_tail {p : RingBufferPool} {heap : Heap} {pc : Pc} {o : Outcome}
    (h : pc.next p heap = some o) :
    o.pool.toRing = p.toRing ∧
      (o.pool.head = p.head ∨ o.pool.head = p.head + 1 ∧ o.pool.tail = p.tail) := by
  cases pc with
  | idle => cases h
  | allocTail size head =>
    simp only [Pc.next] at h
    split at h <;> cases h <;> exact ⟨rfl, Or.inl rfl⟩
  | allocCas size head =>
    simp only [Pc.next] at h
    split at h
    next heq =>
      cases h
      exact ⟨rfl, Or.inr ⟨congrArg (· + 1) heq.symm, rfl⟩⟩
    next =>
      cases h
      exact ⟨rfl, Or.inl rfl⟩
  | allocSlot size head =>
    simp only [Pc.next] at h
    split at h <;> cases h <;> exact ⟨rfl, Or.inl rfl⟩
  | allocGet size =>
    unfold Pc.next at h
    rcases p.getFallback_cases heap with ⟨i, buf, pool, -, -, heq⟩ | ⟨pool, -, heq⟩
    all_goals
      simp only [heq, Option.some.injEq] at h
      subst h
      exact ⟨rfl, Or.inl rfl⟩
  | freeStore buf =>
    cases h
    show (p.releaseSlot buf).toRing = _ ∧ ((p.releaseSlot buf).head = _ ∨ _)
    rcases p.releaseSlot_cases buf with heq | ⟨i, -, heq⟩
    all_goals
      rw [heq]
      exact ⟨rfl, Or.inl rfl⟩
  | allocHead | allocFallback | freeClear | freeTail | putClear | putFallback =>
    cases h
    exact ⟨rfl, Or.inl rfl⟩

/-- What a step can do to the ring and its counters. -/
theorem head_tail_step {a : Act} (h : s.step a = some s') :
    s'.pool.toRing = s.pool.toRing ∧
      (s'.pool.head = s.pool.head ∨
        s'.pool.head = s.pool.head + 1 ∧ s'.pool.tail = s.pool.tail) := by
  cases a with
  | alloc g size =>
    obtain ⟨-, rfl⟩ := step_alloc h
    unfold callAlloc
    dsimp only
    split
    · exact ⟨rfl, Or.inl rfl⟩
    · split <;> exact ⟨rfl, Or.inl rfl⟩
  | free g i =>
    obtain ⟨-, buf, -, rfl⟩ := step_free h
    exact ⟨rfl, Or.inl rfl⟩
  | tick g =>
    obtain ⟨o, hnext, rfl⟩ := Option.map_eq_some_iff.mp h
    exact next_head_tail hnext
  | give g i g' =>
    obtain ⟨buf, -, rfl⟩ := Option.map_eq_some_iff.mp h
    exact ⟨rfl, Or.inl rfl⟩
  | write g i bytes =>
    obtain ⟨buf, -, hwrite⟩ := Option.bind_eq_some_iff.mp h
    split at hwrite
    · cases hwrite
      exact ⟨rfl, Or.inl rfl⟩
    · cases hwrite

/-- `head` only grows. -/
theorem Counted.head_le_step {S S' : Finset Nat} {ops ops' : Nat} {a : Act} (hs : Counted S ops s)
    (hs' : Counted S' ops' s') (h : s.step a = some s') :
    s.pool.head.toNat ≤ s'.pool.head.toNat := by
  obtain ⟨-, hhead | ⟨hhead, htail⟩⟩ := head_tail_step h
  · rw [hhead]
  · -- after a wrap-around `tail` would be zero, and `head` within the ring
    have hroom := hs.room
    have hcap := s.pool.capacity_le
    have horder := hs'.inOrder.1
    have hlt := s.pool.head.toNat_lt
    have hone : (1 : UInt64).toNat = 1 := rfl
    rw [htail, hhead, UInt64.toNat_add, hone] at horder
    rw [hhead, UInt64.toNat_add, hone]
    omega

end Machine

namespace Monitored

variable {s s' : Monitored} {a : MonitorAct}

/-! ## One step -/

/-- A step keeps the reports bounded exactly if it does not load a `tail` out of the ring. -/
theorem bounded_step_iff (hs : s.Bounded) (h : s.step a = some s') :
    s'.Bounded ↔ s.LoadsWithin a := by
  cases a with
  | use a =>
    obtain ⟨machine, -, rfl⟩ := Option.map_eq_some_iff.mp h
    exact iff_of_true hs trivial
  | load k =>
    cases h
    simp only [Bounded, LoadsWithin, List.forall_mem_append, Option.mem_toList,
      ← StatsPc.next_available_le_iff]
    exact and_iff_left hs

/-- The account of the pool, and that no monitor has loaded a `head` that is not there yet. -/
structure Watched (s : Monitored) (S : Finset Nat) (acts : List MonitorAct) : Prop where
  counted : s.machine.CountedFor S (MonitorAct.uses acts)
  loaded_le : ∀ k, ∀ head ∈ (s.monitors k).loaded, head.toNat ≤ s.machine.pool.head.toNat

/-- Whether `tail` is within the ring is whether it has passed `head`. -/
theorem Watched.loadsWithin_iff {S : Finset Nat} {acts : List MonitorAct} (h : s.Watched S acts) :
    s.LoadsWithin a ↔ s.NotOvertaken a := by
  obtain ⟨ops, hcounted, hops⟩ := h.counted.counted
  cases a with
  | use a => exact Iff.rfl
  | load k =>
    refine forall₂_congr fun head hhead => ?_
    exact s.machine.pool.sub_le_iff (Nat.le_trans (h.loaded_le k head hhead) hcounted.room)
      (hcounted.noWrap (by omega))

theorem watched_step_use {S : Finset Nat} {act : Act} {acts : List MonitorAct}
    (h : s.Watched S (.use act :: acts)) (hstep : s.step (.use act) = some s') :
    s'.Watched S acts := by
  obtain ⟨machine, hmachine, rfl⟩ := Option.map_eq_some_iff.mp hstep
  have hcounted := Machine.countedFor_step h.counted hmachine
  obtain ⟨ops, hs, -⟩ := h.counted.counted
  obtain ⟨ops', hs', -⟩ := hcounted.counted
  refine ⟨hcounted, fun k head hhead => ?_⟩
  exact Nat.le_trans (h.loaded_le k head hhead) (hs.head_le_step hs' hmachine)

theorem watched_step_load {S : Finset Nat} {k : Nat} {acts : List MonitorAct}
    (h : s.Watched S (.load k :: acts)) (hstep : s.step (.load k) = some s') :
    s'.Watched S acts := by
  cases hstep
  refine ⟨h.counted, fun j head hhead => ?_⟩
  by_cases hj : j = k
  · subst hj
    simp only [Function.update_self] at hhead
    cases hpc : s.monitors j with
    | loadHead =>
      rw [hpc] at hhead
      cases hhead
      exact Nat.le_refl _
    | idle | loadFree | loadFallback | loadTail =>
      rw [hpc] at hhead
      cases hhead
  · simp only [Function.update_of_ne hj] at hhead
    exact h.loaded_le j head hhead

/-! ## Whole runs -/

/-- **`Stats` without interference returns the `stats` of the sequential model.** -/
theorem run_stats (s : Monitored) (k : Nat) (hidle : s.monitors k = .idle) :
    run step s (List.replicate 5 (.load k)) =
      some { s with reports := s.machine.pool.stats :: s.reports } := by
  simp only [List.replicate, run_cons, run_nil, step, hidle, StatsPc.next, Option.bind_some,
    Function.update_self, Function.update_idem, Option.toList_none, Option.toList_some,
    List.nil_append, List.singleton_append]
  rw [← hidle, Function.update_eq_self]
  rfl

/--
**Every report of a run is at most `RingSize` exactly if `tail`, when it is loaded, is within the
ring below the `head` that was loaded before; with less than `2 ^ 64` calls of `Alloc` and `Free`,
exactly if it has not passed that `head`.**
-/
theorem eachState_bounded_iff {bufferSize : Int} {capacity : UInt64} {pick : Nat → Option Nat}
    {h heap : Heap} {pool : RingBufferPool}
    (hnew : newRingBufferPool bufferSize capacity pick h = .ok (pool, heap))
    (acts : List MonitorAct) :
    (EachState step Bounded (init pool heap) acts ↔
      EachStep step (fun s a _ => s.LoadsWithin a) (init pool heap) acts) ∧
    (calls (MonitorAct.uses acts) < 2 ^ 64 →
      (EachState step Bounded (init pool heap) acts ↔
        EachStep step (fun s a _ => s.NotOvertaken a) (init pool heap) acts)) := by
  have hinit : (init pool heap).Bounded := fun report hreport => by cases hreport
  constructor
  · exact eachState_iff_of_step (I := fun _ _ => True) (fun _ _ _ _ _ _ => trivial)
      (fun _ _ _ _ _ hs hstep => bounded_step_iff hs hstep) trivial hinit
  · intro hcalls
    refine eachState_iff_of_step
      (I := fun s as => s.Watched ((MonitorAct.uses acts).map Act.goroutine).toFinset as) ?_ ?_
      ⟨Machine.countedFor_init (newRingBufferPool_new hnew) hcalls, fun k head hhead => ?_⟩ hinit
    · rintro s (a | k) s' as hwatched hstep
      · exact watched_step_use hwatched hstep
      · exact watched_step_load hwatched hstep
    · intro s a s' as hwatched hs hstep
      rw [bounded_step_iff hs hstep]
      exact hwatched.loadsWithin_iff
    · cases hhead

/-- A monitor whose loads are not interrupted, before and after a buffer is taken. -/
theorem eachState_bounded_quiet :
    ∃ pool heap, newRingBufferPool 8 1 (fun _ => none) ⟨0, fun _ => []⟩ = .ok (pool, heap) ∧
      EachState step Bounded (init pool heap)
        [.load 0, .load 0, .load 0, .load 0, .load 0,
          .use (.alloc 0 8), .use (.tick 0), .use (.tick 0), .use (.tick 0), .use (.tick 0),
          .load 0, .load 0, .load 0, .load 0, .load 0] := by
  have hnew : newRingBufferPool 8 1 (fun _ => none) ⟨0, fun _ => []⟩ = .ok (_, _) := rfl
  exact ⟨_, _, hnew, ((eachState_bounded_iff hnew _).2 (by decide)).mpr (by decide +kernel)⟩

/--
A ring of one buffer. The monitor has loaded `head` when the buffer is taken and freed; it then
reports two available buffers, and `RingSize - Available` is `2 ^ 64 - 1`.
-/
theorem stats_exceed_ring_size :
    ∃ pool heap, newRingBufferPool 8 1 (fun _ => none) ⟨0, fun _ => []⟩ = .ok (pool, heap) ∧
      (run step (init pool heap)
        [.load 0, .load 0, .load 0, .load 0,
          .use (.alloc 0 8), .use (.tick 0), .use (.tick 0), .use (.tick 0), .use (.tick 0),
          .use (.free 0 0), .use (.tick 0), .use (.tick 0), .use (.tick 0),
          .load 0]).map
        (fun s => s.reports.map fun r => (r.ringSize, r.available, r.ringSize - r.available)) =
        some [(1, 2, 18446744073709551615)] := by
  exact ⟨_, _, rfl, by decide +kernel⟩

end Monitored

end FabricaNet.Ringpool
