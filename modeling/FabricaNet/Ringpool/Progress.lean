import FabricaNet.Ringpool.Config
import FabricaNet.Ringpool.Counters

/-!
# The pool is lock-free

A goroutine inside `Alloc` can lose the race for `head` again and again, but only to goroutines
that win it. So the steps of a run are bounded by its calls, whoever is scheduled when: no
interleaving keeps the goroutines busy without letting calls return.

The steps are paid from a potential. A call pays for the steps that it makes when nobody
interferes. An advance of `head` can spoil the loaded `head` of every other goroutine, which then
repeats at most four steps, so it costs `4 * goroutines + 1` units. These are paid by the room in
the ring: there is room for `capacity` advances, and every call of `Free` makes room for one more.

* work `4` for a call of `Alloc` that has loaded nothing, less for one that is further on
* work `5` or `6` for one whose loaded `head` is stale: it has to begin again
* work `5` at the slot, which may be busy
* a call of `Free` carries the price of the advance that it makes room for
-/

namespace FabricaNet.Ringpool

open Go Lib

/-- The number of atomic steps of a run. -/
def ticks (acts : List Act) : Nat :=
  acts.countP fun
    | .tick _ => true
    | _ => false

/-- The number of calls of `Alloc`. -/
def allocs (acts : List Act) : Nat :=
  acts.countP fun
    | .alloc _ _ => true
    | _ => false

/-- The number of calls of `Free`. -/
def frees (acts : List Act) : Nat :=
  acts.countP fun
    | .free _ _ => true
    | _ => false

/-- The goroutines of a run. -/
def goroutines (acts : List Act) : Finset Nat := (acts.map Act.goroutine).toFinset

/-- The steps that a goroutine still has to make if `head` does not move, and the price `price` of
an advance for a call of `Free` that will make room for it. -/
def Pc.work (price : Nat) (head : UInt64) : Pc → Nat
  | .idle => 0
  | .allocHead _ => 4
  | .allocTail _ loaded => if head = loaded then 3 else 6
  | .allocCas _ loaded => if head = loaded then 1 else 5
  | .allocSlot _ _ => 5
  | .allocFallback _ => 2
  | .allocGet _ => 1
  | .freeClear _ => price + 3
  | .freeStore _ => price + 2
  | .freeTail => price + 1
  | .putClear _ => 2
  | .putFallback _ => 1

/-- What an action adds to the potential. -/
def Act.credit (price : Nat) : Act → Nat
  | .alloc _ _ => 4
  | .free _ _ => price + 3
  | _ => 0

/-- What an action costs: one unit for an atomic step. -/
def Act.cost : Act → Nat
  | .tick _ => 1
  | _ => 0

/-- When `head` moves, a goroutine repeats at most four steps. -/
theorem Pc.work_le (price : Nat) (head head' : UInt64) (pc : Pc) :
    pc.work price head' ≤ pc.work price head + 4 := by
  cases pc with
  | allocTail size loaded =>
    simp only [Pc.work]
    split <;> split <;> omega
  | allocCas size loaded =>
    simp only [Pc.work]
    split <;> split <;> omega
  | _ => exact Nat.le_add_right _ 4

/-- What a step does to the counters and to the work of its goroutine. -/
inductive Pc.Progress (price : Nat) (p : RingBufferPool) (pc : Pc) (o : Outcome) : Prop
  /-- neither counter moves, and there is less to do -/
  | quiet (ring : o.pool.toRing = p.toRing) (head : o.pool.head = p.head)
      (tail : o.pool.tail = p.tail) (work : o.pc.work price p.head + 1 ≤ pc.work price p.head)
  /-- the compare-and-swap on `head` -/
  | advance {size : Nat} (ring : o.pool.toRing = p.toRing) (loaded : pc = .allocCas size p.head)
      (head : o.pool.head = p.head + 1) (tail : o.pool.tail = p.tail)
      (work : o.pc.work price o.pool.head ≤ pc.work price p.head + 4)
  /-- `Free` makes room -/
  | release (ring : o.pool.toRing = p.toRing) (head : o.pool.head = p.head)
      (tail : o.pool.tail = p.tail + 1)
      (work : o.pc.work price p.head + price + 1 ≤ pc.work price p.head)

theorem RingBufferPool.releaseSlot_counters (p : RingBufferPool) (buf : Slice) :
    (p.releaseSlot buf).toRing = p.toRing ∧ (p.releaseSlot buf).head = p.head ∧
      (p.releaseSlot buf).tail = p.tail := by
  rcases p.releaseSlot_cases buf with heq | ⟨i, -, heq⟩ <;> rw [heq] <;> exact ⟨rfl, rfl, rfl⟩

theorem Pc.progress_of_next (price : Nat) {p : RingBufferPool} {h : Heap} {pc : Pc} {o : Outcome}
    (hnext : pc.next p h = some o) : pc.Progress price p o := by
  cases pc with
  | idle => cases hnext
  | allocHead size =>
    cases hnext
    refine .quiet rfl rfl rfl ?_
    simp only [Pc.work, if_true]
    omega
  | allocTail size loaded =>
    simp only [Pc.next] at hnext
    split at hnext
    all_goals
      cases hnext
      refine .quiet rfl rfl rfl ?_
      simp only [Pc.work]
      split <;> omega
  | allocCas size loaded =>
    simp only [Pc.next] at hnext
    split at hnext
    · next heq =>
      cases hnext
      subst heq
      refine .advance rfl rfl rfl rfl ?_
      simp only [Pc.work, if_true]
      omega
    · next hne =>
      cases hnext
      refine .quiet rfl rfl rfl ?_
      simp only [Pc.work, if_neg hne]
      omega
  | allocSlot size loaded =>
    simp only [Pc.next] at hnext
    split at hnext
    all_goals
      cases hnext
      refine .quiet rfl rfl rfl ?_
      simp only [Pc.work]
      omega
  | allocGet size =>
    unfold Pc.next at hnext
    rcases p.getFallback_cases h with ⟨i, buf, pool, -, -, heq⟩ | ⟨pool, -, heq⟩
    all_goals
      simp only [heq, Option.some.injEq] at hnext
      subst hnext
      exact .quiet rfl rfl rfl (Nat.le_refl _)
  | freeStore buf =>
    cases hnext
    obtain ⟨hring, hhead, htail⟩ := p.releaseSlot_counters buf
    exact .quiet hring hhead htail (Nat.le_refl _)
  | freeTail =>
    cases hnext
    refine .release rfl rfl rfl ?_
    simp only [Pc.work]
    omega
  | allocFallback size | freeClear buf | putClear buf | putFallback buf =>
    cases hnext
    exact .quiet rfl rfl rfl (Nat.le_refl _)

namespace Machine

variable {s s' : Machine} {g ops price : Nat} {S : Finset Nat}

/-- The number of times that `head` can move before the ring is full. -/
def advancesLeft (s : Machine) : Nat :=
  s.pool.tail.toNat + s.pool.capacity.toNat - s.pool.head.toNat

/-- The steps that are paid for. -/
def potential (S : Finset Nat) (price : Nat) (s : Machine) : Nat :=
  price * s.advancesLeft + tally S (fun x => x.pc.work price s.pool.head) s.gs

/-- A step that costs `c` is paid from the potential and a credit of `d`. -/
def Pays (S : Finset Nat) (price c d : Nat) (s s' : Machine) : Prop :=
  c + potential S price s' ≤ potential S price s + d

/-! ## One step -/

/-- A step of `g` that does not move `head` is paid by `g`'s own work. -/
theorem pays_of_work (s s' : Machine) (hg : g ∈ S) {x : Goroutine}
    (hgs : s'.gs = Function.update s.gs g x) (hhead : s'.pool.head = s.pool.head) {c d : Nat}
    (hpay : price * s'.advancesLeft + x.pc.work price s.pool.head + c ≤
      price * s.advancesLeft + (s.gs g).pc.work price s.pool.head + d) :
    Pays S price c d s s' := by
  have htally := tally_update hg (fun x => Pc.work price s.pool.head x.pc) s.gs x
  simp only [Pays, potential, hhead, hgs]
  omega

theorem advancesLeft_congr (hring : s'.pool.toRing = s.pool.toRing)
    (hhead : s'.pool.head = s.pool.head) (htail : s'.pool.tail = s.pool.tail) :
    s'.advancesLeft = s.advancesLeft := by
  have hcap : s'.pool.capacity = s.pool.capacity := congrArg Ring.capacity hring
  simp only [advancesLeft, hhead, htail, hcap]

/-- The advance of `head` is paid by the room in the ring. -/
theorem pays_of_advance (hprice : 4 * S.card + 1 ≤ price) {x : Goroutine}
    (hgs : s'.gs = Function.update s.gs g x) (hleft : s'.advancesLeft + 1 = s.advancesLeft)
    (hx : x.pc.work price s'.pool.head ≤ (s.gs g).pc.work price s.pool.head + 4) :
    Pays S price 1 0 s s' := by
  -- every goroutine, the winner included, repeats at most four steps
  have htally : tally S (fun x => Pc.work price s'.pool.head x.pc) s'.gs ≤
      tally S (fun x => Pc.work price s.pool.head x.pc) s.gs + S.card * 4 := by
    refine tally_le_add fun k => ?_
    by_cases hk : k = g
    · subst hk
      simpa only [hgs, Function.update_self] using hx
    · simpa only [hgs, Function.update_of_ne hk] using Pc.work_le ..
  have hmul : price * s.advancesLeft = price * s'.advancesLeft + price := by
    rw [← hleft, Nat.mul_add, Nat.mul_one]
  simp only [Pays, potential]
  omega

/-- Every atomic step is paid for. -/
theorem pays_tick (h : Counted S ops s) (hops : ops < 2 ^ 64) (hg : g ∈ S)
    (hprice : 4 * S.card + 1 ≤ price) {o : Outcome}
    (hnext : (s.gs g).pc.next s.pool s.heap = some o) : Pays S price 1 0 s (s.apply g o) := by
  cases Pc.progress_of_next price hnext with
  | quiet hring hhead htail hwork =>
    have hleft : (s.apply g o).advancesLeft = s.advancesLeft :=
      advancesLeft_congr hring hhead htail
    refine pays_of_work s _ hg rfl hhead ?_
    show _ + o.pc.work price s.pool.head + 1 ≤ _
    rw [hleft]
    omega
  | release hring hhead htail hwork =>
    have hcap : 0 < s.pool.capacity.toNat := UInt64.lt_iff_toNat_lt.mp s.pool.capacity_pos
    have hadd : (s.pool.tail + 1).toNat = s.pool.tail.toNat + 1 :=
      UInt64.toNat_add_one (Nat.lt_add_of_pos_right hcap) (h.noWrap hops)
    have hroom := h.room
    have hleft : (s.apply g o).advancesLeft = s.advancesLeft + 1 := by
      show o.pool.tail.toNat + o.pool.capacity.toNat - o.pool.head.toNat = _
      rw [hhead, htail, hadd, congrArg Ring.capacity hring, advancesLeft]
      omega
    refine pays_of_work s _ hg rfl hhead ?_
    show _ + o.pc.work price s.pool.head + 1 ≤ _
    rw [hleft, Nat.mul_add]
    omega
  | advance hring hloaded hhead htail hwork =>
    have hknows := h.knows g
    rw [hloaded] at hknows
    have hlt := hknows.2 rfl
    have hadd : (s.pool.head + 1).toNat = s.pool.head.toNat + 1 :=
      UInt64.toNat_add_one hlt (h.noWrap hops)
    refine pays_of_advance hprice rfl ?_ hwork
    show o.pool.tail.toNat + o.pool.capacity.toNat - o.pool.head.toNat + 1 = s.advancesLeft
    rw [hhead, htail, hadd, congrArg Ring.capacity hring, advancesLeft]
    omega

theorem pays_callAlloc (hg : g ∈ S) (hpc : (s.gs g).pc = .idle) (size : Int) :
    Pays S price 0 4 s (s.callAlloc g size) := by
  unfold callAlloc
  simp only
  split
  · exact pays_of_work s _ hg (by rfl) (by rfl) (by rw [hpc]; exact Nat.le_add_right ..)
  · split
    · exact pays_of_work s _ hg (by rfl) (by rfl) (by rw [hpc]; exact Nat.le_add_right ..)
    · exact pays_of_work s _ hg (by rfl) (by rfl) (by rw [hpc]; exact Nat.le_refl _)

theorem pays_callFree (hg : g ∈ S) (hpc : (s.gs g).pc = .idle) (i : Nat) (buf : Slice) :
    Pays S price 0 (price + 3) s (s.callFree g i buf) := by
  have hwork : (freePc s.pool.toRing buf).work price s.pool.head ≤ price + 3 := by
    unfold freePc
    split
    · exact Nat.le_refl _
    · split <;> simp only [Pc.work] <;> omega
  refine pays_of_work s _ hg (by rfl) (by rfl) ?_
  rw [hpc]
  show price * s.advancesLeft + (freePc s.pool.toRing buf).work price s.pool.head + 0 ≤
    price * s.advancesLeft + 0 + (price + 3)
  omega

/-- Handing over a buffer and writing to it move nobody. -/
theorem pays_of_pc (hpool : s'.pool = s.pool) (hpc : ∀ k, (s'.gs k).pc = (s.gs k).pc) :
    Pays S price 0 0 s s' := by
  have htally : tally S (fun x => Pc.work price s.pool.head x.pc) s'.gs =
      tally S (fun x => Pc.work price s.pool.head x.pc) s.gs :=
    tally_congr fun k => congrArg (Pc.work price s.pool.head) (hpc k)
  simp only [Pays, potential, advancesLeft, hpool, htally]
  omega

/-- **Every step pays for itself.** -/
theorem pays_step {act : Act} (h : Counted S ops s) (hops : ops < 2 ^ 64)
    (hprice : 4 * S.card + 1 ≤ price) (hg : act.goroutine ∈ S) (hstep : s.step act = some s') :
    Pays S price act.cost (act.credit price) s s' := by
  cases act with
  | alloc g size =>
    obtain ⟨hpc, rfl⟩ := step_alloc hstep
    exact pays_callAlloc hg hpc size
  | free g i =>
    obtain ⟨hpc, buf, -, rfl⟩ := step_free hstep
    exact pays_callFree hg hpc i buf
  | tick g =>
    obtain ⟨o, hnext, rfl⟩ := Option.map_eq_some_iff.mp hstep
    exact pays_tick h hops hg hprice hnext
  | give g i g' =>
    obtain ⟨buf, -, rfl⟩ := Option.map_eq_some_iff.mp hstep
    exact pays_of_pc rfl handOver_pc
  | write g i bytes =>
    obtain ⟨buf, -, hwrite⟩ := Option.bind_eq_some_iff.mp hstep
    split at hwrite
    · cases hwrite
      exact pays_of_pc rfl fun _ => rfl
    · cases hwrite

/-! ## Whole runs -/

theorem sum_cost (acts : List Act) : (acts.map Act.cost).sum = ticks acts := by
  induction acts with
  | nil => rfl
  | cons a acts ih =>
    rw [List.map_cons, List.sum_cons, ih]
    cases a <;> simp [Act.cost, ticks, Nat.add_comm]

theorem sum_credit (price : Nat) (acts : List Act) :
    (acts.map (Act.credit price)).sum = 4 * allocs acts + (price + 3) * frees acts := by
  induction acts with
  | nil => rfl
  | cons a acts ih =>
    rw [List.map_cons, List.sum_cons, ih]
    cases a <;> simp [Act.credit, allocs, frees, Nat.mul_add] <;> omega

/-- The potential of a new pool. -/
theorem potential_init {pool : RingBufferPool} {heap : Heap} (hnew : pool.New heap) :
    potential S price (init pool heap) = price * pool.capacity.toNat := by
  have hleft : (init pool heap).advancesLeft = pool.capacity.toNat := by
    show pool.tail.toNat + pool.capacity.toNat - pool.head.toNat = _
    rw [hnew.head_eq, hnew.tail_eq]
    exact Nat.zero_add _
  have htally : tally S (fun x => x.pc.work price pool.head) (init pool heap).gs = 0 :=
    tally_eq_zero fun _ => rfl
  rw [potential, hleft]
  exact congrArg _ htally

/--
**The pool is lock-free.** However the goroutines are scheduled, a run with less than `2 ^ 64`
calls makes at most as many atomic steps as its calls pay for: four for each `Alloc`, three for
each `Free`, and for each of the at most `capacity + frees` advances of `head` one more step and
four for each goroutine.
-/
theorem steps_bounded_by_calls {bufferSize : Int} {capacity : UInt64} {pick : Nat → Option Nat}
    {h heap : Heap} {pool : RingBufferPool}
    (hnew : newRingBufferPool bufferSize capacity pick h = .ok (pool, heap)) {acts : List Act}
    (hcalls : calls acts < 2 ^ 64) (hrun : run step (init pool heap) acts = some s) :
    ticks acts ≤ 4 * allocs acts + 3 * frees acts +
      (4 * (goroutines acts).card + 1) * (capacity.toNat + frees acts) := by
  have hcost : (acts.map Act.cost).sum +
        potential (goroutines acts) (4 * (goroutines acts).card + 1) s ≤
      potential (goroutines acts) (4 * (goroutines acts).card + 1) (init pool heap) +
        (acts.map (Act.credit (4 * (goroutines acts).card + 1))).sum := run_cost_le
    (I := fun s as => s.CountedFor (goroutines acts) as)
    (fun _ _ _ _ hs hstep => countedFor_step hs hstep)
    (fun s a s' as hs hstep => ?_) (countedFor_init (newRingBufferPool_new hnew) hcalls) hrun
  · rw [sum_cost, sum_credit, potential_init (newRingBufferPool_new hnew),
      newRingBufferPool_capacity hnew] at hcost
    have hsplit : (4 * (goroutines acts).card + 1 + 3) * frees acts =
        (4 * (goroutines acts).card + 1) * frees acts + 3 * frees acts := Nat.add_mul ..
    rw [Nat.mul_add]
    omega
  · obtain ⟨ops, hcounted, hops⟩ := hs.counted
    exact pays_step hcounted (by omega) (Nat.le_refl _) (hs.mem a List.mem_cons_self) hstep

/-- Two goroutines race on a ring of two buffers, and the second loses `head` once. -/
theorem steps_bounded_two_goroutines :
    ∃ pool heap s, newRingBufferPool 8 2 (fun _ => none) ⟨0, fun _ => []⟩ = .ok (pool, heap) ∧
      run step (init pool heap) ([.alloc 0 8, .alloc 1 8] ++
        [0, 1, 0, 1, 0, 1, 0, 1, 1, 1, 1].map .tick) = some s ∧
      ticks ([.alloc 0 8, .alloc 1 8] ++ [0, 1, 0, 1, 0, 1, 0, 1, 1, 1, 1].map .tick) ≤ 26 := by
  have hnew : newRingBufferPool 8 2 (fun _ => none) ⟨0, fun _ => []⟩ = .ok (_, _) := rfl
  refine ⟨_, _, _, hnew, rfl, ?_⟩
  exact Nat.le_trans (steps_bounded_by_calls hnew (by decide) rfl) (by decide)

end Machine

end FabricaNet.Ringpool
