import FabricaNet.Ringpool.AllocLoop
import FabricaNet.Ringpool.Conservation
import FabricaNet.Ringpool.Progress

/-!
# How a ring degrades

`Alloc` that meets a busy slot has moved `head` for nothing, and no `Free` moves `tail` for it: the
position is lost for good. The pool then counts as full while buffers are left.

* `lost_positions` — under concurrency, `head` is ahead of `tail` by the busy slots, the goroutines
  on their way, and the positions that the run has lost; and a run never loses all of them
* `ring_starves` — but it can lose all but one: for every capacity there is a run of `Alloc` and
  `Free`, by one caller, after which one buffer is handed out and the ring counts as full; and it
  stays so for as long as that buffer is not given back
-/

namespace FabricaNet.Ringpool

open Go Lib

/-! ## The account -/

/-- One for a goroutine that is about to find its slot busy. -/
def Pc.misses (p : RingBufferPool) : Pc → Nat
  | .allocSlot _ head => busyState (p.stateAt head)
  | _ => 0

namespace Machine

variable {s s' : Machine} {g : Nat} {S : Finset Nat} {ops n : Nat}

/-- One for an action that loses a position. -/
def misses (s : Machine) : Act → Nat
  | .tick g => (s.gs g).pc.misses s.pool
  | _ => 0

/-- The number of positions that a run loses. -/
def lost (s : Machine) : List Act → Nat
  | [] => 0
  | a :: acts =>
    match s.step a with
    | none => 0
    | some s' => s.misses a + s'.lost acts

theorem lost_cons {a : Act} {acts : List Act} (h : s.step a = some s') :
    s.lost (a :: acts) = s.misses a + s'.lost acts := by
  rw [lost, h]

/-- The goroutines that have moved `head` for a slot, or have released one. -/
def inFlight (S : Finset Nat) (s : Machine) : Nat := tally S (fun g => Pc.passed g.pc) s.gs

/-- The account after `n` positions have been lost. -/
def Balanced (S : Finset Nat) (n : Nat) (s : Machine) : Prop :=
  s.pool.tail.toNat + s.pool.busy + s.inFlight S + n = s.pool.head.toNat

/-- A step of one goroutine keeps the account when its own entries balance. -/
theorem Balanced.move (h : Balanced S n s) (hg : g ∈ S) {x : Goroutine} {p : RingBufferPool}
    {heap : Heap} {k : Nat}
    (hentries : p.tail.toNat + p.busy + x.pc.passed + k + s.pool.head.toNat =
      s.pool.tail.toNat + s.pool.busy + (s.gs g).pc.passed + p.head.toNat) :
    Balanced S (n + k) ⟨p, heap, Function.update s.gs g x⟩ := by
  have hpassed := tally_update hg (fun g => Pc.passed g.pc) s.gs x
  unfold Balanced inFlight at h ⊢
  show p.tail.toNat + p.busy + tally S _ (Function.update s.gs g x) + (n + k) = p.head.toNat
  omega

/-- A step of a goroutine that leaves the ring as it is. -/
theorem Balanced.quiet (h : Balanced S n s) (hg : g ∈ S) {x : Goroutine} {p : RingBufferPool}
    {heap : Heap} (hhead : p.head = s.pool.head) (htail : p.tail = s.pool.tail)
    (hbusy : p.busy = s.pool.busy) (hpassed : x.pc.passed = (s.gs g).pc.passed) :
    Balanced S n ⟨p, heap, Function.update s.gs g x⟩ := by
  refine h.move (k := 0) hg ?_
  rw [hhead, htail, hbusy, hpassed]
  omega

section Tick

variable {size : Nat} {head : UInt64} {buf : Slice} {o : Outcome}

/-- The swap moves `head`, for a slot that is still to be taken. -/
theorem balanced_allocCas (h : Balanced S n s) (hcounted : Counted S ops s) (hops : ops < 2 ^ 64)
    (hg : g ∈ S) (hpc : (s.gs g).pc = .allocCas size head)
    (hnext : (Pc.allocCas size head).next s.pool s.heap = some o) :
    Balanced S n (s.apply g o) := by
  have hknows := hcounted.knows g
  rw [hpc] at hknows
  simp only [Pc.next] at hnext
  split at hnext
  · next heq =>
    cases hnext
    have hlt := hknows.2 (congrArg UInt64.toNat heq.symm)
    have hadd : (head + 1).toNat = s.pool.head.toNat + 1 := by
      rw [UInt64.toNat_add_one hlt (hcounted.noWrap hops), heq]
    refine h.move (k := 0) hg ?_
    rw [hpc]
    show s.pool.tail.toNat + s.pool.busy + 1 + 0 + s.pool.head.toNat =
      s.pool.tail.toNat + s.pool.busy + 0 + (head + 1).toNat
    omega
  · cases hnext
    exact h.quiet hg rfl rfl rfl (by rw [hpc]; rfl)

/-- The slot is taken, or found busy: then the position is lost. -/
theorem balanced_allocSlot (h : Balanced S n s) (hg : g ∈ S)
    (hpc : (s.gs g).pc = .allocSlot size head)
    (hnext : (Pc.allocSlot size head).next s.pool s.heap = some o) :
    Balanced S (n + busyState (s.pool.stateAt head)) (s.apply g o) := by
  simp only [Pc.next] at hnext
  split at hnext
  · next hfree =>
    cases hnext
    have hbusy := RingBufferPool.busy_take (i := s.pool.slotOf head) hfree
    refine h.move hg ?_
    show s.pool.tail.toNat + (s.pool.setSlot (s.pool.slotOf head) 1).busy + 0 +
      busyState (s.pool.stateAt head) + s.pool.head.toNat = _
    rw [hbusy, hpc, busyState, if_pos hfree]
    show _ = s.pool.tail.toNat + s.pool.busy + 1 + s.pool.head.toNat
    omega
  · next hbusy =>
    cases hnext
    refine h.move hg ?_
    show s.pool.tail.toNat + s.pool.busy + 0 + busyState (s.pool.stateAt head) +
      s.pool.head.toNat = _
    rw [hpc, busyState, if_neg hbusy]
    rfl

/-- The slot is released, and `tail` is still to be moved. -/
theorem balanced_freeStore (h : Balanced S n s) (hcounted : Counted S ops s) (hg : g ∈ S)
    (hpc : (s.gs g).pc = .freeStore buf)
    (hnext : (Pc.freeStore buf).next s.pool s.heap = some o) : Balanced S n (s.apply g o) := by
  have hknows := hcounted.knows g
  rw [hpc] at hknows
  cases hnext
  obtain ⟨i, hptr, heq⟩ := RingBufferPool.releaseSlot_of_ring hknows
  have hcarried : buf.ptr ∈ (s.gs g).pc.carried := by
    rw [hpc]
    exact Multiset.mem_singleton_self _
  have hbusy : (s.pool.setSlot i 0).busy + 1 = s.pool.busy :=
    RingBufferPool.busy_release (slot_busy_of_carried hcounted.exclusive hcarried hptr)
  rw [heq]
  refine h.move (k := 0) hg ?_
  rw [hpc]
  show s.pool.tail.toNat + (s.pool.setSlot i 0).busy + 1 + 0 + s.pool.head.toNat =
    s.pool.tail.toNat + s.pool.busy + 0 + s.pool.head.toNat
  omega

theorem balanced_freeTail (h : Balanced S n s) (hcounted : Counted S ops s) (hops : ops < 2 ^ 64)
    (hg : g ∈ S) (hpc : (s.gs g).pc = .freeTail)
    (hnext : Pc.freeTail.next s.pool s.heap = some o) : Balanced S n (s.apply g o) := by
  cases hnext
  have hcap : 0 < s.pool.capacity.toNat := UInt64.lt_iff_toNat_lt.mp s.pool.capacity_pos
  have hadd : (s.pool.tail + 1).toNat = s.pool.tail.toNat + 1 :=
    UInt64.toNat_add_one (Nat.lt_add_of_pos_right hcap) (hcounted.noWrap hops)
  refine h.move (k := 0) hg ?_
  rw [hpc]
  show (s.pool.tail + 1).toNat + s.pool.busy + 0 + 0 + s.pool.head.toNat =
    s.pool.tail.toNat + s.pool.busy + 1 + s.pool.head.toNat
  omega

theorem balanced_tick (h : Balanced S n s) (hcounted : Counted S ops s) (hops : ops < 2 ^ 64)
    (hg : g ∈ S) (hnext : (s.gs g).pc.next s.pool s.heap = some o) :
    Balanced S (n + (s.gs g).pc.misses s.pool) (s.apply g o) := by
  cases hpc : (s.gs g).pc <;> rw [hpc] at hnext
  case idle => cases hnext
  case allocCas => exact balanced_allocCas h hcounted hops hg hpc hnext
  case allocSlot => exact balanced_allocSlot h hg hpc hnext
  case freeStore => exact balanced_freeStore h hcounted hg hpc hnext
  case freeTail => exact balanced_freeTail h hcounted hops hg hpc hnext
  case allocTail =>
    simp only [Pc.next] at hnext
    split at hnext
    all_goals
      cases hnext
      exact h.quiet hg rfl rfl rfl (by rw [hpc]; rfl)
  case allocGet =>
    unfold Pc.next at hnext
    rcases s.pool.getFallback_cases s.heap with ⟨i, buf, pool, -, -, heq⟩ | ⟨pool, -, heq⟩
    all_goals
      simp only [heq, Option.some.injEq] at hnext
      subst hnext
      exact h.quiet hg rfl rfl rfl (by rw [hpc]; rfl)
  -- the other steps move no counter and change no slot
  all_goals
    cases hnext
    exact h.quiet hg rfl rfl rfl (by rw [hpc]; rfl)

end Tick

theorem balanced_callAlloc (h : Balanced S n s) (hg : g ∈ S) (hpc : (s.gs g).pc = .idle)
    (size : Int) : Balanced S n (s.callAlloc g size) := by
  unfold callAlloc
  simp only
  split
  · exact h.quiet hg rfl rfl rfl (by rw [hpc])
  · split
    · exact h.quiet hg rfl rfl rfl (by rw [hpc])
    · exact h.quiet hg rfl rfl rfl (by rw [hpc]; rfl)

theorem balanced_callFree (h : Balanced S n s) (hg : g ∈ S) (hpc : (s.gs g).pc = .idle) (i : Nat)
    (buf : Slice) : Balanced S n (s.callFree g i buf) := by
  refine h.quiet hg rfl rfl rfl ?_
  rw [hpc]
  show (freePc s.pool.toRing buf).passed = 0
  unfold freePc
  split
  · rfl
  · split <;> rfl

/-- A step in which nobody moves. -/
theorem Balanced.stay (h : Balanced S n s) (hpool : s'.pool = s.pool)
    (hpc : ∀ k, (s'.gs k).pc = (s.gs k).pc) : Balanced S n s' := by
  have htally : s'.inFlight S = s.inFlight S := tally_congr fun k => congrArg Pc.passed (hpc k)
  unfold Balanced at h ⊢
  rw [hpool, htally]
  exact h

/-- **Every step keeps the account.** -/
theorem balanced_step {act : Act} (h : Balanced S n s) (hcounted : Counted S ops s)
    (hops : ops < 2 ^ 64) (hg : act.goroutine ∈ S) (hstep : s.step act = some s') :
    Balanced S (n + s.misses act) s' := by
  cases act with
  | alloc g size =>
    obtain ⟨hpc, rfl⟩ := step_alloc hstep
    exact balanced_callAlloc h hg hpc size
  | free g i =>
    obtain ⟨hpc, buf, -, rfl⟩ := step_free hstep
    exact balanced_callFree h hg hpc i buf
  | tick g =>
    obtain ⟨o, hnext, rfl⟩ := Option.map_eq_some_iff.mp hstep
    exact balanced_tick h hcounted hops hg hnext
  | give g i g' =>
    obtain ⟨buf, -, rfl⟩ := Option.map_eq_some_iff.mp hstep
    exact h.stay rfl handOver_pc
  | write g i bytes =>
    obtain ⟨buf, -, hwrite⟩ := Option.bind_eq_some_iff.mp hstep
    split at hwrite
    · cases hwrite
      exact h.stay rfl fun _ => rfl
    · cases hwrite

/-- A slot is busy, so that one buffer at least is out. -/
theorem busy_pos_of_state {p : RingBufferPool} {i : Fin p.capacity.toNat}
    (h : p.slotStates.get i ≠ 0) : 0 < p.busy := by
  have := RingBufferPool.busy_release h
  omega

theorem passed_le_inFlight (hg : g ∈ S) : (s.gs g).pc.passed ≤ s.inFlight S :=
  Finset.single_le_sum (f := fun k => Pc.passed (s.gs k).pc) (fun _ _ => Nat.zero_le _) hg

/--
The position that is lost is not the last one: the slot that is met is busy, and the goroutine that
meets it has moved `head`.
-/
theorem lost_lt_step {act : Act} (h : Balanced S n s) (hcounted : Counted S ops s)
    (hg : act.goroutine ∈ S) (hlt : n < s.pool.capacity.toNat) :
    n + s.misses act < s.pool.capacity.toNat := by
  cases act with
  | tick g =>
    cases hpc : (s.gs g).pc with
    | allocSlot size head =>
      show n + Pc.misses s.pool (s.gs g).pc < _
      rw [hpc]
      show n + busyState (s.pool.stateAt head) < _
      unfold busyState
      split
      · exact hlt
      · next hbusy =>
        have hpos : 0 < s.pool.busy := busy_pos_of_state hbusy
        have hpassed : (s.gs g).pc.passed ≤ s.inFlight S := passed_le_inFlight hg
        have hroom := hcounted.room
        unfold Balanced at h
        rw [hpc] at hpassed
        have hone : 1 ≤ s.inFlight S := hpassed
        omega
    | _ =>
      show n + Pc.misses s.pool (s.gs g).pc < _
      rw [hpc]
      exact hlt
  | _ => exact hlt

/-- What the account says of a machine that has been run by goroutines in `S`. -/
structure Account (S : Finset Nat) (n : Nat) (s : Machine) : Prop where
  balanced : Balanced S n s
  lt : n < s.pool.capacity.toNat

theorem account_init {pool : RingBufferPool} {heap : Heap} (hnew : pool.New heap) :
    Account S 0 (init pool heap) := by
  have hbusy : pool.busy = 0 := tally_eq_zero fun i => if_pos (hnew.slot_free i)
  have hflight : (init pool heap).inFlight S = 0 := tally_eq_zero fun _ => rfl
  refine ⟨?_, UInt64.lt_iff_toNat_lt.mp pool.capacity_pos⟩
  show pool.tail.toNat + pool.busy + _ + 0 = pool.head.toNat
  rw [hbusy, hflight, hnew.head_eq, hnew.tail_eq]
  rfl

theorem account_run {acts : List Act} (hcounted : s.CountedFor S acts) (h : Account S n s)
    (hrun : run step s acts = some s') : Account S (n + s.lost acts) s' := by
  induction acts generalizing s n with
  | nil => cases hrun; exact h
  | cons a acts ih =>
    obtain ⟨s₁, hs₁, hrest⟩ := run_cons_eq_some.mp hrun
    obtain ⟨ops, hops, hlt⟩ := hcounted.counted
    have hmem := hcounted.mem a List.mem_cons_self
    have hcap : s₁.pool.capacity = s.pool.capacity := congrArg Ring.capacity (step_toRing hs₁)
    have h₁ : Account S (n + s.misses a) s₁ :=
      { balanced := balanced_step h.balanced hops (by omega) hmem hs₁
        lt := by rw [hcap]; exact lost_lt_step h.balanced hops hmem h.lt }
    rw [lost_cons hs₁, ← Nat.add_assoc]
    exact ih (countedFor_step hcounted hs₁) h₁ hrest

/--
**What has become of the positions of the ring.** After every run of any number of goroutines with
less than `2 ^ 64` calls, `head` is ahead of `tail` by the buffers that are out, the goroutines on
their way, and the positions that the run has lost on busy slots. These never come back, but they
are fewer than the capacity.
-/
theorem lost_positions {bufferSize : Int} {capacity : UInt64} {pick : Nat → Option Nat}
    {h heap : Heap} {pool : RingBufferPool}
    (hnew : newRingBufferPool bufferSize capacity pick h = .ok (pool, heap)) {acts : List Act}
    (hcalls : calls acts < 2 ^ 64) (hrun : run step (init pool heap) acts = some s) :
    Account (goroutines acts) ((init pool heap).lost acts) s := by
  have hrun' := account_run (countedFor_init (newRingBufferPool_new hnew) hcalls)
    (account_init (newRingBufferPool_new hnew)) hrun
  rwa [Nat.zero_add] at hrun'

/-- The first buffer of two stays out while the second is used. -/
def oneStaysOut : List Act :=
  [.alloc 0 8, .tick 0, .tick 0, .tick 0, .tick 0, .alloc 1 8, .tick 1, .tick 1, .tick 1, .tick 1,
    .free 1 0, .tick 1, .tick 1, .tick 1, .alloc 1 8, .tick 1, .tick 1, .tick 1, .tick 1]

/-- With two buffers one position is lost that way. -/
theorem lost_positions_two_buffers :
    ∃ pool heap acts s, newRingBufferPool 8 2 (fun _ => none) ⟨0, fun _ => []⟩ = .ok (pool, heap) ∧
      run step (init pool heap) acts = some s ∧ (init pool heap).lost acts = 1 ∧
      Account (goroutines acts) ((init pool heap).lost acts) s := by
  have hnew : newRingBufferPool 8 2 (fun _ => none) ⟨0, fun _ => []⟩ = .ok (_, _) := rfl
  exact ⟨_, _, oneStaysOut, _, hnew, rfl, rfl, lost_positions hnew (by decide) rfl⟩

end Machine

/-! ## The worst case -/

theorem Ring.slotOf_inj (r : Ring) (head : UInt64) {i j : Nat} (hi : i < r.capacity.toNat)
    (hj : j < r.capacity.toNat)
    (h : r.slotOf (head + UInt64.ofNat i) = r.slotOf (head + UInt64.ofNat j)) : i = j :=
  (r.existsUnique_slotOf head _).unique ⟨hi, h⟩ ⟨hj, rfl⟩

namespace RingBufferPool

variable {p : RingBufferPool}

/-- A buffer that is allocated at `head` and freed leaves the slots as they were. -/
theorem free_allocSlot (size : Nat) (h : Heap) (hfree : p.stateAt p.head = 0) :
    ∃ states heap, (allocSlot size p h).2.1.free (allocSlot size p h).2.2 (allocSlot size p h).1 =
        ({ p with
          head := p.head + 1, tail := p.tail + 1, slotStates := states,
          freeCount := p.freeCount + 1 }, heap) ∧
      heap.next = h.next ∧ ∀ i, states.get i = p.slotStates.get i := by
  have hring : p.isRingBuffer { p.buffers.get (p.slotOf p.head) with len := size } = true :=
    p.isRingBuffer_buffers (p.slotOf p.head)
  obtain ⟨i, hptr, heq⟩ := releaseSlot_of_ring
    (p := { (allocSlot size p h).2.1 with freeCount := p.freeCount + 1 }) hring
  have hi : i = p.slotOf p.head := Ring.buffers_ptr_inj hptr
  subst hi
  refine ⟨(p.slotStates.set (p.slotOf p.head) 1 (Fin.isLt _)).set (p.slotOf p.head) 0 (Fin.isLt _),
    h.clear (allocSlot size p h).1, ?_, rfl, fun i => ?_⟩
  · unfold free
    refine (if_pos hring).trans ?_
    exact congrArg (fun q : RingBufferPool => ({ q with tail := q.tail + 1 }, h.clear _)) heq
  · by_cases hi : i = p.slotOf p.head
    · subst hi
      exact (Vector.getElem_set_self ..).trans hfree.symm
    · have hne : (p.slotOf p.head).val ≠ i.val := fun he => hi (Fin.ext he.symm)
      exact (Vector.getElem_set_ne _ _ hne).trans (Vector.getElem_set_ne _ _ hne)

theorem one_inRange (p : RingBufferPool) : 1 ≤ (1 : Int) ∧ (1 : Int) ≤ p.bufferSize := by
  have hpos := p.bufferSize_pos
  omega

/-- The first slot that is taken is the only one. -/
theorem setSlot_ne_zero_iff (hfree : ∀ i, p.slotStates.get i = 0) (k i : Fin p.capacity.toNat) :
    (p.setSlot k 1).slotStates.get i ≠ 0 ↔ i.val = k.val := by
  rw [get_setSlot]
  by_cases hi : i = k
  · subst hi
    rw [Function.update_self]
    exact ⟨fun _ => rfl, fun _ => by decide⟩
  · rw [Function.update_of_ne hi]
    exact ⟨fun hne => absurd (hfree i) hne, fun he => absurd (Fin.ext he) hi⟩

end RingBufferPool

namespace Use

variable {s s' : Use} {c k : Nat}

/-- One ring buffer is handed out, and only its slot, the `k`-th of `c`, is busy. -/
structure Worn (s : Use) (c k : Nat) : Prop extends s.Separate where
  capacity_eq : s.pool.capacity.toNat = c
  lone : ∀ i : Fin s.pool.capacity.toNat, s.pool.slotStates.get i ≠ 0 ↔ i.val = k
  held : ∃ buf, s.held = [buf] ∧ s.pool.isRingBuffer buf = true
  spent_le : s.pool.spent ≤ c

/-- The slot that `head` meets after `i` more steps. -/
def ahead (s : Use) (i : Nat) : Nat := (s.pool.slotOf (s.pool.head + UInt64.ofNat i)).val

theorem Worn.stateAfter_iff (h : s.Worn c k) (i : Nat) :
    s.pool.stateAfter i ≠ 0 ↔ s.ahead i = k := h.lone _

theorem Worn.ahead_inj (h : s.Worn c k) {i j : Nat} (hi : i < c) (hj : j < c)
    (hik : s.ahead i = k) (hjk : s.ahead j = k) : i = j := by
  rw [← h.capacity_eq] at hi hj
  exact s.pool.slotOf_inj s.pool.head hi hj (Fin.ext (hik.trans hjk.symm))

/-- `Alloc`, and `Free` of the buffer that it returns. -/
theorem run_round {buf : Slice} {p₁ p₂ : RingBufferPool} {h₁ h₂ : Heap}
    (halloc : s.pool.alloc s.heap 1 = (buf, p₁, h₁)) (hfree : p₁.free h₁ buf = (p₂, h₂)) :
    run step s [.alloc 1, .free 0] = some ⟨p₂, h₂, s.held⟩ := by
  simp only [run_cons, step, halloc, Option.bind_some, List.getElem?_cons_zero, Option.map_some,
    hfree, List.eraseIdx_zero, List.tail_cons, run_nil]

/-- A round moves the counters and leaves the slots as they are. -/
theorem Worn.update (h : s.Worn c k) {heap : Heap} {head tail allocCount freeCount
    fallbackCount : UInt64} {slotStates : Vector UInt32 s.pool.capacity.toNat}
    {fallbackPool : SyncPool Slice} (hstates : ∀ i, slotStates.get i = s.pool.slotStates.get i)
    (hnext : s.heap.next ≤ heap.next)
    (hitems : ∀ buf ∈ fallbackPool.items, s.pool.isRingBuffer buf = false)
    (hspent : (head - tail).toNat ≤ c) :
    Worn ⟨{ s.pool with
      head, tail, slotStates, fallbackPool, allocCount, freeCount, fallbackCount },
      heap, s.held⟩ c k where
  fallback_not_ring := hitems
  ring_lt_next := fun buf hbuf => Nat.lt_of_lt_of_le (h.ring_lt_next buf hbuf) hnext
  capacity_eq := h.capacity_eq
  lone := fun i => by
    show slotStates.get i ≠ 0 ↔ _
    rw [hstates i]
    exact h.lone i
  held := h.held
  spent_le := hspent

/-- A round in which `Alloc` finds a slot after `j` busy ones. -/
theorem round_of_slot (h : s.Worn c k) {j : Nat} (hj : s.pool.spent + j < c)
    (hfree : s.pool.stateAfter j = 0)
    (heq : s.pool.alloc s.heap 1 = RingBufferPool.allocSlot 1
      (RingBufferPool.advance { s.pool with allocCount := s.pool.allocCount + 1 } j) s.heap) :
    ∃ s', run step s [.alloc 1, .free 0] = some s' ∧ s'.Worn c k ∧
      s'.pool.spent = s.pool.spent + j ∧ ∀ i, s'.ahead i = s.ahead (i + (j + 1)) := by
  obtain ⟨states, heap, hround, hnext, hstates⟩ := RingBufferPool.free_allocSlot
    (p := RingBufferPool.advance { s.pool with allocCount := s.pool.allocCount + 1 } j)
    1 s.heap hfree
  have hspent : (s.pool.advance (j + 1)).spent = s.pool.spent + (j + 1) :=
    RingBufferPool.spent_advance (by rw [h.capacity_eq]; omega)
  have hadd : s.pool.head + UInt64.ofNat j + 1 = s.pool.head + UInt64.ofNat (j + 1) := by
    rw [UInt64.ofNat_add, UInt64.add_assoc]
    rfl
  have htail := RingBufferPool.spent_tail (p := s.pool.advance (j + 1)) (by omega)
  have hspent' : (s.pool.head + UInt64.ofNat j + 1 - (s.pool.tail + 1)).toNat =
      s.pool.spent + j := by
    rw [hadd]
    exact Nat.add_right_cancel (htail.trans hspent)
  refine ⟨_, run_round heq hround,
    h.update hstates hnext.ge h.fallback_not_ring (hspent'.trans_le (by omega)), hspent',
    fun i => ?_⟩
  show (s.pool.slotOf (s.pool.head + UInt64.ofNat j + 1 + UInt64.ofNat i)).val =
    (s.pool.slotOf (s.pool.head + UInt64.ofNat (i + (j + 1)))).val
  rw [hadd, UInt64.add_assoc, ← UInt64.ofNat_add, Nat.add_comm i]

/-- A round in which `Alloc` finds the ring full. -/
theorem round_of_full (h : s.Worn c k)
    (heq : s.pool.alloc s.heap 1 = RingBufferPool.allocFallback 1
      (RingBufferPool.advance { s.pool with allocCount := s.pool.allocCount + 1 }
        (c - s.pool.spent)) s.heap) :
    ∃ s', run step s [.alloc 1, .free 0] = some s' ∧ s'.Worn c k ∧ s'.pool.spent = c := by
  have hle := h.spent_le
  obtain ⟨buf, pool, heap, hfall, hnext, hitems, hbuf⟩ := RingBufferPool.allocFallback_spec 1
    (RingBufferPool.advance { s.pool with allocCount := s.pool.allocCount + 1 }
      (c - s.pool.spent)) s.heap
  have hother : s.pool.isRingBuffer { buf with len := 1 } = false := by
    rcases hbuf with hbuf | hbuf
    · exact h.fallback_not_ring buf hbuf
    · by_contra hring
      rw [Bool.not_eq_false] at hring
      exact absurd (h.ring_lt_next _ hring) (by rw [hbuf]; exact Nat.lt_irrefl _)
  obtain ⟨items, heap', hround, hnext', hitems'⟩ := RingBufferPool.free_other (p :=
    { RingBufferPool.advance { s.pool with allocCount := s.pool.allocCount + 1 }
        (c - s.pool.spent) with
      fallbackPool := pool, fallbackCount := s.pool.fallbackCount + 1 }) heap hother
  have hspent : (s.pool.advance (c - s.pool.spent)).spent = c := by
    rw [RingBufferPool.spent_advance (by rw [h.capacity_eq]; omega)]
    omega
  refine ⟨_, run_round (heq.trans hfall) hround, h.update (fun _ => rfl) ?_ ?_ hspent.le, hspent⟩
  · rw [hnext']
    exact hnext
  · intro b hb
    rcases hitems' b hb with hb | rfl
    · exact h.fallback_not_ring b (hitems b hb)
    · exact hother

/-- **A round passes a free slot, or loses a position.** -/
theorem Worn.round (h : s.Worn c k) (hlt : s.pool.spent < c) :
    ∃ s', run step s [.alloc 1, .free 0] = some s' ∧ s'.Worn c k ∧
      ((s.ahead 0 ≠ k ∧ s'.pool.spent = s.pool.spent ∧ ∀ i, s'.ahead i = s.ahead (i + 1)) ∨
        s'.pool.spent = s.pool.spent + 1) := by
  have halloc := RingBufferPool.alloc_of_in_range s.heap s.pool.one_inRange
  have hroom : RingBufferPool.room { s.pool with allocCount := s.pool.allocCount + 1 } =
      c - s.pool.spent := by
    rw [← h.capacity_eq]
    exact RingBufferPool.room_eq (by rw [h.capacity_eq]; exact h.spent_le)
  -- two positions in a row are not both busy
  have hone : ∀ n, s.pool.spent + n ≤ c → (∀ i < n, s.pool.stateAfter i ≠ 0) → n ≤ 1 := by
    intro n hn hbusy
    by_contra hgt
    have h0 := (h.stateAfter_iff 0).mp (hbusy 0 (by omega))
    have h1 := (h.stateAfter_iff 1).mp (hbusy 1 (by omega))
    exact absurd (h.ahead_inj (by omega) (by omega) h0 h1) (by decide)
  rcases RingBufferPool.allocLoop_cases (Int.toNat 1)
    { s.pool with allocCount := s.pool.allocCount + 1 } s.heap with
    ⟨j, hj, hbefore, hfree, heq⟩ | ⟨hbusy, heq⟩
  · rw [hroom] at hj
    have hj1 := hone j (by omega) hbefore
    obtain ⟨s', hrun, hworn, hspent, hahead⟩ :=
      round_of_slot h (by omega) hfree (halloc.trans heq)
    refine ⟨s', hrun, hworn, ?_⟩
    obtain rfl | rfl : j = 0 ∨ j = 1 := by omega
    · have hpassed : s.ahead 0 ≠ k := fun h0 => (h.stateAfter_iff 0).mpr h0 hfree
      exact Or.inl ⟨hpassed, hspent, hahead⟩
    · exact Or.inr hspent
  · rw [hroom] at hbusy heq
    have := hone (c - s.pool.spent) (by omega) hbusy
    obtain ⟨s', hrun, hworn, hspent⟩ := round_of_full h (halloc.trans heq)
    exact ⟨s', hrun, hworn, Or.inr (by omega)⟩

/-- Within a lap of the ring a position is lost. -/
theorem Worn.lap {i : Nat} (h : s.Worn c k) (hlt : s.pool.spent < c) (hahead : s.ahead i = k) :
    ∃ ops s', run step s ops = some s' ∧ s'.Worn c k ∧ s'.pool.spent = s.pool.spent + 1 := by
  induction i generalizing s with
  | zero =>
    obtain ⟨s', hrun, hworn, ⟨hpassed, -, -⟩ | hspent⟩ := h.round hlt
    · exact absurd hahead hpassed
    · exact ⟨_, s', hrun, hworn, hspent⟩
  | succ i ih =>
    obtain ⟨s', hrun, hworn, ⟨-, hspent, hshift⟩ | hspent⟩ := h.round hlt
    · obtain ⟨ops, s'', hrun', hworn', hspent'⟩ := ih hworn (by omega) ((hshift i).trans hahead)
      refine ⟨[.alloc 1, .free 0] ++ ops, s'', ?_, hworn', by omega⟩
      rw [run_append, hrun]
      exact hrun'
    · exact ⟨_, s', hrun, hworn, hspent⟩

/-- Lap after lap, the ring is used up. -/
theorem Worn.wear {n : Nat} (h : s.Worn c k) (hk : k < c) (hn : s.pool.spent + n = c) :
    ∃ ops s', run step s ops = some s' ∧ s'.Worn c k ∧ s'.pool.spent = c := by
  induction n generalizing s with
  | zero => exact ⟨[], s, rfl, h, hn⟩
  | succ n ih =>
    have hslot : k < s.pool.capacity.toNat := by rwa [h.capacity_eq]
    obtain ⟨i, ⟨-, hi⟩, -⟩ := s.pool.existsUnique_slotOf s.pool.head ⟨k, hslot⟩
    obtain ⟨ops, s₁, hrun, hworn, hspent⟩ := h.lap (by omega) (congrArg Fin.val hi)
    obtain ⟨ops', s₂, hrun', hworn', hspent'⟩ := ih hworn (by omega)
    refine ⟨ops ++ ops', s₂, ?_, hworn', hspent'⟩
    rw [run_append, hrun]
    exact hrun'

/-- After the first `Alloc` on a new pool. -/
theorem worn_of_new {pool : RingBufferPool} {heap : Heap} (hnew : pool.New heap) :
    ∃ s, step ⟨pool, heap, []⟩ (.alloc 1) = some s ∧
      s.Worn pool.capacity.toNat (pool.slotOf pool.head) ∧ s.pool.spent = 1 := by
  have hpos : 0 < pool.capacity.toNat := UInt64.lt_iff_toNat_lt.mp pool.capacity_pos
  have hspent := RingBufferPool.spent_new hnew
  have hle : pool.spent ≤ pool.capacity.toNat := hspent.trans_le hpos.le
  have hseparate := (inv_new hnew).toSeparate
  have hzero : ∀ n, pool.stateAfter n = 0 := fun n => hnew.slot_free _
  have halloc := RingBufferPool.alloc_of_in_range heap pool.one_inRange
  have hroom : RingBufferPool.room { pool with allocCount := pool.allocCount + 1 } =
      pool.capacity.toNat - pool.spent := RingBufferPool.room_eq hle
  rcases RingBufferPool.allocLoop_cases (Int.toNat 1)
    { pool with allocCount := pool.allocCount + 1 } heap with
    ⟨j, -, hbefore, -, heq⟩ | ⟨hbusy, -⟩
  · obtain rfl : j = 0 := by
      by_contra hne
      exact hbefore 0 (Nat.pos_of_ne_zero hne) (hzero 0)
    rw [RingBufferPool.advance_zero] at heq
    have hspent' : (pool.head + 1 - pool.tail).toNat = 1 := by
      have := RingBufferPool.spent_advance (p := pool) (n := 1) (by omega)
      rwa [hspent] at this
    refine ⟨⟨RingBufferPool.setSlot { pool with
        allocCount := pool.allocCount + 1, head := pool.head + 1 } (pool.slotOf pool.head) 1,
      heap, [{ pool.buffers.get (pool.slotOf pool.head) with len := 1 }]⟩, ?_,
      ⟨⟨hseparate.fallback_not_ring, hseparate.ring_lt_next⟩, rfl, fun i => ?_,
      ⟨_, rfl, pool.isRingBuffer_buffers (pool.slotOf pool.head)⟩, hspent'.trans_le hpos⟩, hspent'⟩
    · simp only [step, halloc, heq]
      rfl
    · exact RingBufferPool.setSlot_ne_zero_iff hnew.slot_free (pool.slotOf pool.head) i
  · exact absurd (hzero 0) (hbusy 0 (by rw [hroom]; omega))

/-! ## A ring that is used up -/

/-- The call gives no ring buffer back. -/
def KeepsRing (s : Use) : UseOp → Prop
  | .alloc _ => True
  | .free i => ∀ buf ∈ s.held[i]?, s.pool.isRingBuffer buf = false

/-- One ring buffer is handed out, and `head` is ahead of `tail` by all of them. -/
structure Starved (s : Use) : Prop extends s.Separate where
  one : s.handedOut = 1
  spent_eq : s.pool.spent = s.pool.capacity.toNat

theorem Starved.available (h : Starved s) : s.pool.available = 0 := by
  have havail := RingBufferPool.available_toNat h.spent_eq.le
  rw [h.spent_eq, Nat.sub_self] at havail
  exact UInt64.toNat_inj.mp havail

theorem LeavesRing.starved (h : LeavesRing s s') (hstarved : Starved s) : Starved s' where
  toSeparate := h.separate
  one := h.handedOut.trans hstarved.one
  spent_eq := by rw [h.spent, h.ring, hstarved.spent_eq]

/-- **Until a ring buffer comes back, `Alloc` hands out none.** -/
theorem Starved.step {op : UseOp} (h : Starved s) (hkeeps : s.KeepsRing op)
    (hs : s.step op = some s') : Starved s' := by
  cases op with
  | alloc size =>
    by_cases hsize : s.InRange size
    · obtain ⟨hsep, hring, -, hout⟩ :=
        step_alloc_in_range h.toSeparate h.spent_eq.le hsize hs
      cases hout with
      | slot j room _ _ _ _ _ => exact absurd h.spent_eq (by omega)
      | fallback _ spent handedOut _ =>
        exact ⟨hsep, handedOut.trans h.one, by rw [hring]; exact spent⟩
    · exact (step_alloc_out_of_range h.toSeparate hsize hs).starved h
  | free i =>
    obtain ⟨buf, hbuf, -⟩ := Option.map_eq_some_iff.mp hs
    exact (step_free_other h.toSeparate hbuf (hkeeps buf hbuf) hs).starved h

theorem Worn.starved (h : s.Worn c k) (hspent : s.pool.spent = c) : Starved s where
  toSeparate := h.toSeparate
  one := by
    obtain ⟨buf, hheld, hring⟩ := h.held
    rw [handedOut, hheld]
    exact List.countP_cons_of_pos hring
  spent_eq := hspent.trans h.capacity_eq.symm

/--
**A ring can wear down to a single buffer.** Whatever its capacity, there is a run of `Alloc` and
`Free` by one caller after which one ring buffer is handed out and the pool counts none as
available. As long as that buffer is not given back this stays so, and no `Alloc` hands out another
ring buffer.
-/
theorem ring_starves {bufferSize : Int} {capacity : UInt64} {pick : Nat → Option Nat}
    {h heap : Heap} {pool : RingBufferPool}
    (hnew : newRingBufferPool bufferSize capacity pick h = .ok (pool, heap)) :
    ∃ ops s, run step ⟨pool, heap, []⟩ ops = some s ∧
      ∀ more, EachStep step (fun s op _ => s.KeepsRing op) s more →
        EachState step (fun s => s.handedOut = 1 ∧ s.pool.available = 0) s more := by
  obtain ⟨s₁, hfirst, hworn, hspent⟩ := worn_of_new (newRingBufferPool_new hnew)
  have hle := hworn.spent_le
  obtain ⟨ops, s, hrun, hworn', hspent'⟩ :=
    hworn.wear (n := pool.capacity.toNat - 1) (Fin.isLt _) (by omega)
  refine ⟨.alloc 1 :: ops, s, ?_, fun more hmore => ?_⟩
  · rw [run_cons, hfirst]
    exact hrun
  · exact eachState_of_inv (I := Starved) (fun _ _ _ hi hc hs => hi.step hc hs)
      (fun _ hi => ⟨hi.one, hi.available⟩) (hworn'.starved hspent') hmore

/-- A ring of eight buffers. -/
theorem ring_of_eight_starves :
    ∃ pool heap, newRingBufferPool 8 8 (fun _ => none) ⟨0, fun _ => []⟩ = .ok (pool, heap) ∧
      ∃ ops s, run step ⟨pool, heap, []⟩ ops = some s ∧
        ∀ more, EachStep step (fun s op _ => s.KeepsRing op) s more →
          EachState step (fun s => s.handedOut = 1 ∧ s.pool.available = 0) s more := by
  have hnew : newRingBufferPool 8 8 (fun _ => none) ⟨0, fun _ => []⟩ = .ok (_, _) := rfl
  exact ⟨_, _, hnew, ring_starves hnew⟩

end Use

end FabricaNet.Ringpool
