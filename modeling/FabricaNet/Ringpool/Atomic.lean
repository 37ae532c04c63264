import Mathlib.Logic.Function.Basic
import FabricaNet.Lib.Run
import FabricaNet.Ringpool.Pool

/-!
# The ring buffer pool under concurrency

Any number of goroutines call `Alloc` and `Free` of one pool. Each load, store, add and
compare-and-swap on an atomic is one step, and so are `clearBuffer` and the calls of
`fallbackPool`. The atomics are sequentially consistent, so a run is a list of actions.

A goroutine frees only what it holds, and no longer holds it then. A held buffer may be handed to
another goroutine and may be written by its holder.

A call that nobody interferes with is the call of `FabricaNet/Ringpool/Pool.lean`
(`run_alloc`, `run_free`).
-/

namespace FabricaNet.Ringpool

open Go Lib

/-- Where a goroutine is: the step of `Alloc` or `Free` that it takes next. -/
inductive Pc where
  | idle
  /-- `head.Load()` -/
  | allocHead (size : Nat)
  /-- `tail.Load()` and the test for a full ring -/
  | allocTail (size : Nat) (head : UInt64)
  /-- `head.CompareAndSwap(head, head+1)` -/
  | allocCas (size : Nat) (head : UInt64)
  /-- `slotStates[head&mask].CompareAndSwap(0, 1)` -/
  | allocSlot (size : Nat) (head : UInt64)
  /-- `fallbackCount.Add(1)` -/
  | allocFallback (size : Nat)
  /-- `fallbackPool.Get()` -/
  | allocGet (size : Nat)
  /-- `clearBuffer(buf)` of a ring buffer -/
  | freeClear (buf : Slice)
  /-- `slotStates[index].Store(0)` -/
  | freeStore (buf : Slice)
  /-- `tail.Add(1)` -/
  | freeTail
  /-- `clearBuffer(buf)` of a fallback buffer -/
  | putClear (buf : Slice)
  /-- `fallbackPool.Put(&b)` -/
  | putFallback (buf : Slice)

/-- What a step leaves behind: where the goroutine is now and what `Alloc` has returned to it. -/
structure Outcome where
  pc : Pc
  returned : List Slice
  pool : RingBufferPool
  heap : Heap

namespace Pc

/-- One atomic step of a goroutine. -/
def next (p : RingBufferPool) (h : Heap) : Pc → Option Outcome
  | .idle => none
  | .allocHead size => some ⟨.allocTail size p.head, [], p, h⟩
  | .allocTail size head =>
    if head = p.tail + p.capacity then some ⟨.allocFallback size, [], p, h⟩
    else some ⟨.allocCas size head, [], p, h⟩
  | .allocCas size head =>
    if p.head = head then some ⟨.allocSlot size head, [], { p with head := head + 1 }, h⟩
    else some ⟨.allocHead size, [], p, h⟩
  | .allocSlot size head =>
    if p.stateAt head = 0 then
      some ⟨.idle, [{ p.buffers.get (p.slotOf head) with len := size }],
        p.setSlot (p.slotOf head) 1, h⟩
    else some ⟨.allocHead size, [], p, h⟩
  | .allocFallback size =>
    some ⟨.allocGet size, [], { p with fallbackCount := p.fallbackCount + 1 }, h⟩
  | .allocGet size =>
    let (buf, p', h') := p.getFallback h
    some ⟨.idle, [{ buf with len := size }], p', h'⟩
  | .freeClear buf => some ⟨.freeStore buf, [], p, h.clear buf⟩
  | .freeStore buf => some ⟨.freeTail, [], p.releaseSlot buf, h⟩
  | .freeTail => some ⟨.idle, [], { p with tail := p.tail + 1 }, h⟩
  | .putClear buf => some ⟨.putFallback buf, [], p, h.clear buf⟩
  | .putFallback buf =>
    some ⟨.idle, [],
      { p with fallbackPool := p.fallbackPool.put { buf with len := p.bufferSize } }, h⟩

end Pc

/-- No step touches what `NewRingBufferPool` has set once. -/
theorem Pc.next_toRing {pc : Pc} {p : RingBufferPool} {h : Heap} {o : Outcome}
    (hnext : pc.next p h = some o) : o.pool.toRing = p.toRing := by
  cases pc with
  | idle => cases hnext
  | allocTail size head | allocCas size head | allocSlot size head =>
    simp only [Pc.next] at hnext
    split at hnext <;> cases hnext <;> rfl
  | allocGet size =>
    cases hnext
    show (p.getFallback h).2.1.toRing = p.toRing
    rcases p.getFallback_cases h with ⟨_, _, _, -, -, heq⟩ | ⟨_, -, heq⟩ <;> rw [heq]
  | freeStore buf =>
    cases hnext
    show (p.releaseSlot buf).toRing = p.toRing
    rcases p.releaseSlot_cases buf with heq | ⟨i, -, heq⟩ <;> rw [heq]
    rfl
  | _ => cases hnext; rfl

/-- A goroutine: where it is, and the buffers that it holds. -/
structure Goroutine where
  pc : Pc := .idle
  held : List Slice := []

/-- The pool, the heap and the goroutines. -/
structure Machine where
  pool : RingBufferPool
  heap : Heap
  gs : Nat → Goroutine

inductive Act where
  /-- `g` calls `Alloc(size)` -/
  | alloc (g : Nat) (size : Int)
  /-- `g` calls `Free` on the `i`-th buffer that it holds -/
  | free (g i : Nat)
  /-- the next step of the call that `g` is in -/
  | tick (g : Nat)
  /-- `g` hands the `i`-th buffer that it holds to `g'` -/
  | give (g i g' : Nat)
  /-- `g` writes to the `i`-th buffer that it holds -/
  | write (g i : Nat) (bytes : Bytes)

namespace Machine

/-- A pool that nobody uses yet. -/
def init (pool : RingBufferPool) (heap : Heap) : Machine :=
  { pool := pool, heap := heap, gs := fun _ => {} }

/-- The machine with one goroutine replaced. -/
def setG (s : Machine) (g : Nat) (x : Goroutine) : Machine :=
  { s with gs := Function.update s.gs g x }

/-- What `Alloc` does before its loop. -/
def callAlloc (s : Machine) (g : Nat) (size : Int) : Machine :=
  let p := { s.pool with allocCount := s.pool.allocCount + 1 }
  let held := (s.gs g).held
  if size ≤ 0 then
    let (buf, h) := s.heap.make 0
    { s with pool := p, heap := h }.setG g { held := buf :: held }
  else if size > p.bufferSize then
    let (buf, h) := s.heap.make size.toNat
    { s with pool := p, heap := h }.setG g { held := buf :: held }
  else { s with pool := p }.setG g { pc := .allocHead size.toNat, held := held }

/-- The branch that `Free` takes for a buffer. -/
def freePc (r : Ring) (buf : Slice) : Pc :=
  if r.isRingBuffer buf then .freeClear buf
  else if buf.cap = r.bufferSize then .putClear buf
  else .idle

/-- What `Free` does before it touches the buffer. -/
def callFree (s : Machine) (g i : Nat) (buf : Slice) : Machine :=
  { s with pool := { s.pool with freeCount := s.pool.freeCount + 1 } }.setG g
    { pc := freePc s.pool.toRing buf, held := (s.gs g).held.eraseIdx i }

/-- The machine after the step of a goroutine with the given outcome. -/
def apply (s : Machine) (g : Nat) (o : Outcome) : Machine :=
  { s with pool := o.pool, heap := o.heap }.setG g
    { pc := o.pc, held := o.returned ++ (s.gs g).held }

/-- Takes the `i`-th buffer from `g` and gives it to `g'`. -/
def handOver (s : Machine) (g i g' : Nat) (buf : Slice) : Machine :=
  let s := s.setG g { s.gs g with held := (s.gs g).held.eraseIdx i }
  s.setG g' { s.gs g' with held := buf :: (s.gs g').held }

/-- One action. A goroutine calls `Alloc` and `Free` only when it is in no call. -/
def step (s : Machine) : Act → Option Machine
  | .alloc g size =>
    match (s.gs g).pc with
    | .idle => some (s.callAlloc g size)
    | _ => none
  | .free g i =>
    match (s.gs g).pc with
    | .idle => (s.gs g).held[i]?.map (s.callFree g i)
    | _ => none
  | .tick g => ((s.gs g).pc.next s.pool s.heap).map (s.apply g)
  | .give g i g' => (s.gs g).held[i]?.map (s.handOver g i g')
  | .write g i bytes =>
    (s.gs g).held[i]?.bind fun buf =>
      if bytes.length ≤ buf.cap then some { s with heap := s.heap.write buf bytes } else none

theorem step_alloc {s s' : Machine} {g : Nat} {size : Int}
    (h : s.step (.alloc g size) = some s') : (s.gs g).pc = .idle ∧ s' = s.callAlloc g size := by
  simp only [step] at h
  split at h
  · next hpc => exact ⟨hpc, (Option.some.inj h).symm⟩
  · cases h

theorem step_free {s s' : Machine} {g i : Nat} (h : s.step (.free g i) = some s') :
    (s.gs g).pc = .idle ∧ ∃ buf, (s.gs g).held[i]? = some buf ∧ s' = s.callFree g i buf := by
  simp only [step] at h
  split at h
  · next hpc =>
    obtain ⟨buf, hbuf, rfl⟩ := Option.map_eq_some_iff.mp h
    exact ⟨hpc, buf, hbuf, rfl⟩
  · cases h

theorem step_toRing {m m' : Machine} {a : Act} (hstep : m.step a = some m') :
    m'.pool.toRing = m.pool.toRing := by
  cases a with
  | alloc g size =>
    obtain ⟨-, rfl⟩ := step_alloc hstep
    unfold callAlloc
    simp only
    split
    · rfl
    · split <;> rfl
  | free g i =>
    obtain ⟨-, buf, -, rfl⟩ := step_free hstep
    rfl
  | tick g =>
    obtain ⟨o, hnext, rfl⟩ := Option.map_eq_some_iff.mp hstep
    exact Pc.next_toRing hnext
  | give g i g' =>
    obtain ⟨buf, -, rfl⟩ := Option.map_eq_some_iff.mp hstep
    rfl
  | write g i bytes =>
    obtain ⟨buf, -, hwrite⟩ := Option.bind_eq_some_iff.mp hstep
    split at hwrite <;> cases hwrite
    rfl

/-! ## Calls without interference -/

/-- The machine in which `g` is at `pc` and holds `held`, and the others are as in `gs`. -/
def focus (gs : Nat → Goroutine) (g : Nat) (p : RingBufferPool) (h : Heap) (pc : Pc)
    (held : List Slice) : Machine :=
  { pool := p, heap := h, gs := Function.update gs g { pc := pc, held := held } }

variable {gs : Nat → Goroutine} {g : Nat} {p : RingBufferPool} {h : Heap} {held : List Slice}

theorem step_tick_focus (pc : Pc) :
    (focus gs g p h pc held).step (.tick g) = (pc.next p h).map fun o =>
      focus gs g o.pool o.heap o.pc (o.returned ++ held) := by
  unfold step apply setG focus
  simp only [Function.update_self, Function.update_idem]

/-- One step of a run of `g` alone. -/
theorem run_tick {pc : Pc} {o : Outcome} {n : Nat} {s : Machine} (hnext : pc.next p h = some o)
    (hrest : run step (focus gs g o.pool o.heap o.pc (o.returned ++ held))
      (List.replicate n (.tick g)) = some s) :
    run step (focus gs g p h pc held) (List.replicate (n + 1) (.tick g)) = some s := by
  rw [List.replicate_succ, run_cons, step_tick_focus, hnext]
  exact hrest

/-! ### Counting

`Ticks` says where a run of one goroutine ends and how often `head` moves in it. A step leaves
`head` alone (`Ticks.stay`) or moves it (`Ticks.move`).
-/

/-- How often `head` moves in a run. -/
def headAdvances (s : Machine) (acts : List Act) : Nat :=
  countSteps step (fun s s' => s'.pool.head ≠ s.pool.head) s acts

/-- `n` steps of `g` lead from `s` to `s'`, and `head` moves in `k` of them. -/
structure Ticks (g : Nat) (s s' : Machine) (n k : Nat) : Prop where
  run_eq : run step s (List.replicate n (.tick g)) = some s'
  advances_eq : s.headAdvances (List.replicate n (.tick g)) = k

section Ticks

variable {pc : Pc} {o : Outcome} {n k : Nat} {s s' : Machine}

theorem Ticks.nil : Ticks g s s 0 0 := ⟨rfl, rfl⟩

theorem step_tick_of_next (hnext : pc.next p h = some o) :
    (focus gs g p h pc held).step (.tick g) =
      some (focus gs g o.pool o.heap o.pc (o.returned ++ held)) := by
  rw [step_tick_focus, hnext]
  rfl

theorem Ticks.stay (hnext : pc.next p h = some o) (hhead : o.pool.head = p.head)
    (hrest : Ticks g (focus gs g o.pool o.heap o.pc (o.returned ++ held)) s' n k) :
    Ticks g (focus gs g p h pc held) s' (n + 1) k where
  run_eq := run_tick hnext hrest.run_eq
  advances_eq := by
    rw [← hrest.advances_eq]
    exact countSteps_cons_of_neg (step_tick_of_next hnext) (not_not.mpr hhead)

theorem Ticks.move (hnext : pc.next p h = some o) (hhead : o.pool.head ≠ p.head)
    (hrest : Ticks g (focus gs g o.pool o.heap o.pc (o.returned ++ held)) s' n k) :
    Ticks g (focus gs g p h pc held) s' (n + 1) (k + 1) where
  run_eq := run_tick hnext hrest.run_eq
  advances_eq := by
    rw [← hrest.advances_eq]
    exact countSteps_cons_of_pos (step_tick_of_next hnext) hhead

/-- The loop loads `head` and `tail` and wins `head`. -/
theorem Ticks.advance {size : Nat} (hfull : p.head ≠ p.tail + p.capacity)
    (hrest : Ticks g (focus gs g (p.advance 1) h (.allocSlot size p.head) held) s' n k) :
    Ticks g (focus gs g p h (.allocHead size) held) s' (n + 3) (k + 1) := by
  have hnext : p.head + 1 ≠ p.head := by
    intro heq
    have hone := UInt64.add_right_inj p.head |>.mp (heq.trans (UInt64.add_zero p.head).symm)
    exact absurd hone (by decide)
  exact .stay rfl rfl (.stay (if_neg hfull) rfl (.move (if_pos rfl) hnext hrest))

/--
The loop of `Alloc`, step by step. It moves `head` at most to `tail + capacity`, and makes four
steps for each move, and four more for a fallback buffer.
-/
theorem ticks_allocLoop (gs : Nat → Goroutine) (g : Nat) (held : List Slice) (size : Nat)
    (p : RingBufferPool) (h : Heap) :
    ∃ n k, Ticks g (focus gs g p h (.allocHead size) held)
        (focus gs g (RingBufferPool.allocLoop size p h).2.1
          (RingBufferPool.allocLoop size p h).2.2 .idle
          ((RingBufferPool.allocLoop size p h).1 :: held)) n k ∧
      n ≤ 4 * k + 4 ∧ k ≤ p.room ∧
      (RingBufferPool.allocLoop size p h).2.1.head = p.head + UInt64.ofNat k := by
  fun_induction RingBufferPool.allocLoop size p h with
  | case1 p hfull =>
    have hhead : (RingBufferPool.allocFallback size p h).2.1.head = p.head :=
      (RingBufferPool.getFallback_counters ..).1
    refine ⟨4, 0, ?_, by omega, Nat.zero_le _, ?_⟩
    · exact .stay rfl rfl (.stay (if_pos hfull) rfl (.stay rfl rfl (.stay rfl hhead .nil)))
    · rw [hhead]
      exact (UInt64.add_zero p.head).symm
  | case2 p hfull hfree =>
    refine ⟨4, 1, .advance hfull (.stay (if_pos hfree) rfl .nil), by omega, ?_, rfl⟩
    have hroom := RingBufferPool.room_advance_one hfull
    omega
  | case3 p hfull hbusy ih =>
    obtain ⟨n, k, hticks, hn, hk, hhead⟩ := ih
    have hroom : k + 1 ≤ p.room := by
      rw [← RingBufferPool.room_advance_one hfull]
      exact Nat.succ_le_succ hk
    refine ⟨n + 4, k + 1, .advance hfull (.stay (if_neg hbusy) rfl hticks), by omega, hroom, ?_⟩
    rw [hhead, UInt64.add_assoc, Nat.add_comm k 1, UInt64.ofNat_add]
    rfl

end Ticks

/-- **`Alloc` without interference is the `alloc` of the sequential model.** -/
theorem run_alloc (s : Machine) (g : Nat) (size : Int) (hidle : (s.gs g).pc = .idle) :
    ∃ n, run step s (.alloc g size :: List.replicate n (.tick g)) =
      some (focus s.gs g (s.pool.alloc s.heap size).2.1 (s.pool.alloc s.heap size).2.2 .idle
        ((s.pool.alloc s.heap size).1 :: (s.gs g).held)) := by
  have hcall : s.step (.alloc g size) = some (s.callAlloc g size) := by
    simp only [step, hidle]
  simp only [run_cons, hcall, Option.bind_some]
  unfold callAlloc RingBufferPool.alloc
  simp only
  split
  · exact ⟨0, rfl⟩
  · split
    · exact ⟨0, rfl⟩
    · obtain ⟨n, k, hticks, -⟩ := ticks_allocLoop s.gs g (s.gs g).held size.toNat _ s.heap
      exact ⟨n, hticks.run_eq⟩

/-- **`Free` without interference is the `free` of the sequential model.** -/
theorem run_free (s : Machine) (g i : Nat) (buf : Slice) (hidle : (s.gs g).pc = .idle)
    (hbuf : (s.gs g).held[i]? = some buf) :
    ∃ n, run step s (.free g i :: List.replicate n (.tick g)) =
      some (focus s.gs g (s.pool.free s.heap buf).1 (s.pool.free s.heap buf).2 .idle
        ((s.gs g).held.eraseIdx i)) := by
  have hcall : s.step (.free g i) = some (s.callFree g i buf) := by
    simp only [step, hidle, hbuf, Option.map_some]
  simp only [run_cons, hcall, Option.bind_some]
  unfold callFree freePc RingBufferPool.free
  simp only
  split
  · exact ⟨3, run_tick rfl (run_tick rfl (run_tick rfl rfl))⟩
  · split
    · exact ⟨2, run_tick rfl (run_tick rfl rfl)⟩
    · exact ⟨0, rfl⟩

end Machine

end FabricaNet.Ringpool
