import Mathlib.Data.List.Perm.Basic
import FabricaNet.Lib.Ownership
import FabricaNet.Ringpool.Atomic

/-!
# Who owns a buffer

In every run of any number of goroutines a buffer of the pool has one owner: a goroutine that
holds it, a goroutine inside `Free`, the fallback pool, or its slot. The resources are the
addresses of the buffers. A slot owns its buffer while its state is 0, so the compare-and-swap on
the slot state is the transfer from the slot to the caller of `Alloc`. Whether `head` and `tail`
are stale does not matter.
-/

namespace FabricaNet.Ringpool

open Go Lib

/-- Where a buffer can be. -/
inductive Place where
  | held (g : Nat)
  /-- inside a call of `Free` by `g` -/
  | inFree (g : Nat)
  | fallback
  | slot (i : Nat)

/-- The buffer that a call of `Free` still has in its hands. -/
def Pc.carried : Pc → Multiset Nat
  | .freeClear buf | .freeStore buf | .putClear buf | .putFallback buf => {buf.ptr}
  | _ => 0

/-- The buffer of an available slot. -/
def RingBufferPool.slotOwn (p : RingBufferPool) (i : Nat) : Multiset Nat :=
  if h : i < p.capacity.toNat then
    if p.slotStates[i] = 0 then {p.buffers[i].ptr} else 0
  else 0

/-- The addresses of the buffers in a list. -/
def addrs (bufs : List Slice) : Multiset Nat := (bufs.map Slice.ptr : List Nat)

namespace Machine

/-- The buffers at each place, by address. -/
def own (s : Machine) : Place → Multiset Nat
  | .held g => addrs (s.gs g).held
  | .inFree g => (s.gs g).pc.carried
  | .fallback => addrs s.pool.fallbackPool.items
  | .slot i => s.pool.slotOwn i

/-- The addresses that have been allocated. -/
def live (s : Machine) (a : Nat) : Prop := a < s.heap.next

/-- No buffer of the pool, from the ring or the fallback pool, is held twice. -/
def NoTwoHolders (s : Machine) : Prop :=
  ∀ g g' (i i' : Nat) b b', (s.gs g).held[i]? = some b → (s.gs g').held[i']? = some b' →
    b.cap = s.pool.bufferSize → b.ptr = b'.ptr → g = g' ∧ i = i'

/-- The bytes of a buffer that is held are not changed by anyone but the holder's own writes. -/
def ContentsKept (s : Machine) (act : Act) (s' : Machine) : Prop :=
  ∀ g, ∀ b ∈ (s.gs g).held, (∀ i bytes, act ≠ .write g i bytes) →
    s'.heap.mem b.ptr = s.heap.mem b.ptr

end Machine

/-! ## Addresses of lists and slots -/

theorem addrs_cons (b : Slice) (bufs : List Slice) :
    addrs (b :: bufs) = b.ptr ::ₘ addrs bufs := rfl

theorem addrs_eraseIdx {bufs : List Slice} {i : Nat} {b : Slice} (h : bufs[i]? = some b) :
    addrs bufs = b.ptr ::ₘ addrs (bufs.eraseIdx i) := by
  obtain ⟨hi, rfl⟩ := List.getElem?_eq_some_iff.mp h
  rw [← addrs_cons]
  exact (Multiset.coe_eq_coe.mpr ((List.getElem_cons_eraseIdx_perm hi).map Slice.ptr)).symm

theorem mem_addrs {bufs : List Slice} {b : Slice} (h : b ∈ bufs) : b.ptr ∈ addrs bufs :=
  Multiset.mem_coe.mpr (List.mem_map_of_mem h)

namespace RingBufferPool

variable {p : RingBufferPool}

theorem slotOwn_of_free {i : Fin p.capacity.toNat} (h : p.slotStates.get i = 0) :
    p.slotOwn i = {(p.buffers.get i).ptr} := by
  unfold slotOwn
  rw [dif_pos i.isLt]
  exact if_pos h

theorem slotOwn_of_busy {i : Fin p.capacity.toNat} (h : p.slotStates.get i ≠ 0) :
    p.slotOwn i = 0 := by
  unfold slotOwn
  rw [dif_pos i.isLt]
  exact if_neg h

theorem slotOwn_setSlot_self (i : Fin p.capacity.toNat) (x : UInt32) :
    (p.setSlot i x).slotOwn i = if x = 0 then {(p.buffers.get i).ptr} else 0 := by
  unfold slotOwn setSlot
  rw [dif_pos i.isLt]
  simp only [Vector.getElem_set_self]
  rfl

theorem slotOwn_setSlot_ne {i : Fin p.capacity.toNat} {j : Nat} (x : UInt32) (h : j ≠ i) :
    (p.setSlot i x).slotOwn j = p.slotOwn j := by
  unfold slotOwn setSlot
  split
  · next hj => simp only [Vector.getElem_set_ne i.isLt hj (Ne.symm h)]
  · rfl

end RingBufferPool

namespace Machine

variable {s s' : Machine} {g : Nat}

/-! ## What a step transfers -/

/-- The places that a step of `g` can change are `g`'s own, the fallback pool and the slots. -/
theorem own_congr (hgs : ∀ k, k ≠ g → s'.gs k = s.gs k) {k : Place}
    (hheld : k = .held g → s'.own (.held g) = s.own (.held g))
    (hfree : k = .inFree g → s'.own (.inFree g) = s.own (.inFree g))
    (hfb : k = .fallback → s'.own .fallback = s.own .fallback)
    (hslot : ∀ i, k = .slot i → s'.own (.slot i) = s.own (.slot i)) :
    s'.own k = s.own k := by
  cases k with
  | held k =>
    by_cases hk : k = g
    · subst hk; exact hheld rfl
    · show addrs (s'.gs k).held = addrs (s.gs k).held
      rw [hgs k hk]
  | inFree k =>
    by_cases hk : k = g
    · subst hk; exact hfree rfl
    · show (s'.gs k).pc.carried = (s.gs k).pc.carried
      rw [hgs k hk]
  | fallback => exact hfb rfl
  | slot i => exact hslot i rfl

theorem setG_of_ne {x : Goroutine} {k : Nat} (h : k ≠ g) : (s.setG g x).gs k = s.gs k :=
  Function.update_of_ne h ..

theorem own_held_setG (x : Goroutine) : (s.setG g x).own (.held g) = addrs x.held := by
  show addrs (Function.update s.gs g x g).held = _
  rw [Function.update_self]

theorem own_inFree_setG (x : Goroutine) : (s.setG g x).own (.inFree g) = x.pc.carried := by
  show (Function.update s.gs g x g).pc.carried = _
  rw [Function.update_self]

theorem apply_of_ne {o : Outcome} {k : Nat} (h : k ≠ g) : (s.apply g o).gs k = s.gs k :=
  Function.update_of_ne h ..

theorem own_held_apply (o : Outcome) :
    (s.apply g o).own (.held g) = addrs (o.returned ++ (s.gs g).held) := own_held_setG _

theorem own_inFree_apply (o : Outcome) : (s.apply g o).own (.inFree g) = o.pc.carried :=
  own_inFree_setG _

/-- A step that takes nothing and hands out nothing. -/
theorem transfer_apply_stay {o : Outcome} (hret : o.returned = [])
    (hpc : o.pc.carried = (s.gs g).pc.carried)
    (hfb : o.pool.fallbackPool.items = s.pool.fallbackPool.items)
    (hslot : ∀ i, o.pool.slotOwn i = s.pool.slotOwn i) :
    Transfer s.live (s.apply g o).live s.own (s.apply g o).own := by
  refine .stay fun k => own_congr (fun k hk => apply_of_ne hk) (fun _ => ?_) (fun _ => ?_)
    (fun _ => congrArg addrs hfb) fun i _ => hslot i
  · rw [own_held_apply, hret]; rfl
  · rw [own_inFree_apply, hpc]; rfl

/-- The compare-and-swap on a slot state hands the buffer of the slot to the caller. -/
theorem transfer_allocSlot {size : Nat} {head : UInt64} (hpc : (s.gs g).pc = .allocSlot size head)
    (hfree : s.pool.stateAt head = 0) :
    Transfer s.live s.live s.own
      (s.apply g ⟨.idle, [{ s.pool.buffers[s.pool.slotOf head] with len := size }],
        s.pool.setSlot (s.pool.slotOf head) 1, s.heap⟩).own := by
  refine .move (.slot (s.pool.slotOf head)) (.held g) s.pool.buffers[s.pool.slotOf head].ptr
    nofun ?_ (own_held_apply _) fun k hslot hheld => ?_
  · show s.pool.slotOwn _ = _ ::ₘ (s.pool.setSlot (s.pool.slotOf head) 1).slotOwn _
    rw [RingBufferPool.slotOwn_of_free hfree, RingBufferPool.slotOwn_setSlot_self]
    rfl
  · refine own_congr (fun k hk => apply_of_ne hk) (fun hk => absurd hk hheld) (fun _ => ?_)
      (fun _ => rfl) fun i hk => ?_
    · rw [own_inFree_apply]
      show 0 = (s.gs g).pc.carried
      rw [hpc]
      rfl
    · exact RingBufferPool.slotOwn_setSlot_ne 1 fun hi => hslot (hk.trans (congrArg Place.slot hi))

theorem transfer_allocGet {size : Nat} (hpc : (s.gs g).pc = .allocGet size) {o : Outcome}
    (hnext : (s.gs g).pc.next s.pool s.heap = some o) :
    s.heap.next ≤ o.heap.next ∧ Transfer s.live (s.apply g o).live s.own (s.apply g o).own := by
  rw [hpc] at hnext
  have hcarried : ∀ o' : Outcome, o'.pc = .idle →
      (s.apply g o').own (.inFree g) = s.own (.inFree g) := by
    intro o' ho'
    rw [own_inFree_apply, ho']
    show 0 = (s.gs g).pc.carried
    rw [hpc]
    rfl
  unfold Pc.next at hnext
  rcases s.pool.getFallback_cases s.heap with
    ⟨i, buf, pool, hbuf, hitems, heq⟩ | ⟨pool, hitems, heq⟩
  · simp only [heq, Option.some.injEq] at hnext
    subst hnext
    refine ⟨Nat.le_refl _, .move .fallback (.held g) buf.ptr nofun ?_ (own_held_apply _)
      fun k hfb hheld => ?_⟩
    · show addrs s.pool.fallbackPool.items = buf.ptr ::ₘ addrs pool.items
      rw [hitems]
      exact addrs_eraseIdx hbuf
    · exact own_congr (fun k hk => apply_of_ne hk) (fun hk => absurd hk hheld)
        (fun _ => hcarried _ rfl) (fun hk => absurd hk hfb) fun i _ => rfl
  · simp only [heq, Option.some.injEq] at hnext
    subst hnext
    refine ⟨Nat.le_succ _, .acquire (.held g) s.heap.next (Nat.lt_irrefl _) (Nat.lt_succ_self _)
      (own_held_apply _) fun k hheld => ?_⟩
    exact own_congr (fun k hk => apply_of_ne hk) (fun hk => absurd hk hheld)
      (fun _ => hcarried _ rfl) (fun _ => congrArg addrs hitems) fun i _ => rfl

/-- A slot whose buffer is inside a call of `Free` is busy. -/
theorem slot_busy_of_carried (hex : Exclusive s.live s.own) {buf : Slice}
    (hcarried : buf.ptr ∈ (s.gs g).pc.carried) {i : Fin s.pool.capacity.toNat}
    (hptr : (s.pool.buffers.get i).ptr = buf.ptr) : s.pool.slotStates.get i ≠ 0 := by
  intro hfree
  have hslot : buf.ptr ∈ s.own (.slot i) := by
    show _ ∈ s.pool.slotOwn i
    rw [RingBufferPool.slotOwn_of_free hfree, hptr]
    exact Multiset.mem_singleton_self _
  exact nomatch hex.unique hslot (show buf.ptr ∈ s.own (.inFree g) from hcarried)

/-- The store to a slot state hands the buffer back to its slot. -/
theorem transfer_freeStore (hex : Exclusive s.live s.own) {buf : Slice}
    (hpc : (s.gs g).pc = .freeStore buf) :
    Transfer s.live s.live s.own
      (s.apply g ⟨.freeTail, [], s.pool.releaseSlot buf, s.heap⟩).own := by
  have hown : s.own (.inFree g) = {buf.ptr} := by
    show (s.gs g).pc.carried = _
    rw [hpc]
    rfl
  have hown' : s.own (.inFree g) = buf.ptr ::ₘ
      (s.apply g ⟨.freeTail, [], s.pool.releaseSlot buf, s.heap⟩).own (.inFree g) := by
    rw [own_inFree_apply, hown]
    rfl
  rcases s.pool.releaseSlot_cases buf with heq | ⟨i, hptr, heq⟩
  · refine .drop (.inFree g) buf.ptr hown' fun k hk => ?_
    exact own_congr (fun k hk => apply_of_ne hk) (fun _ => own_held_apply _)
      (fun hk' => absurd hk' hk) (fun _ => by rw [heq]; rfl) fun i _ => by rw [heq]; rfl
  · have hptr : (s.pool.buffers.get i).ptr = buf.ptr := hptr
    -- the slot does not own the buffer yet: `g` does
    have hbusy : s.pool.slotStates.get i ≠ 0 :=
      slot_busy_of_carried hex (hown ▸ Multiset.mem_singleton_self _) hptr
    refine .move (.inFree g) (.slot i) buf.ptr nofun hown' ?_ fun k hinFree hslot => ?_
    · show (s.pool.releaseSlot buf).slotOwn i = _ ::ₘ s.pool.slotOwn i
      rw [heq, RingBufferPool.slotOwn_setSlot_self, RingBufferPool.slotOwn_of_busy hbusy, hptr]
      rfl
    · refine own_congr (fun k hk => apply_of_ne hk) (fun _ => own_held_apply _)
        (fun hk => absurd hk hinFree) (fun _ => by rw [heq]; rfl) fun j hk => ?_
      show (s.pool.releaseSlot buf).slotOwn j = s.pool.slotOwn j
      rw [heq]
      exact RingBufferPool.slotOwn_setSlot_ne 0 fun hj => hslot (hk.trans (congrArg Place.slot hj))

theorem transfer_putFallback {buf : Slice} (hpc : (s.gs g).pc = .putFallback buf) :
    Transfer s.live s.live s.own (s.apply g ⟨.idle, [], { s.pool with
      fallbackPool := s.pool.fallbackPool.put { buf with len := s.pool.bufferSize } },
      s.heap⟩).own := by
  refine .move (.inFree g) .fallback buf.ptr nofun ?_ rfl fun k hinFree hfb => ?_
  · rw [own_inFree_apply]
    show (s.gs g).pc.carried = _
    rw [hpc]
    rfl
  · exact own_congr (fun k hk => apply_of_ne hk) (fun _ => own_held_apply _)
      (fun hk => absurd hk hinFree) (fun hk => absurd hk hfb) fun i _ => rfl

/-- Every atomic step is a transfer. -/
theorem transfer_tick (hex : Exclusive s.live s.own) {o : Outcome}
    (hnext : (s.gs g).pc.next s.pool s.heap = some o) :
    s.heap.next ≤ o.heap.next ∧ Transfer s.live (s.apply g o).live s.own (s.apply g o).own := by
  cases hpc : (s.gs g).pc with
  | allocGet size => exact transfer_allocGet hpc hnext
  | idle => rw [hpc] at hnext; cases hnext
  | allocHead size | allocFallback size | freeClear buf | freeTail | putClear buf =>
    rw [hpc] at hnext
    cases hnext
    exact ⟨Nat.le_refl _, transfer_apply_stay rfl (by rw [hpc]; rfl) rfl fun _ => rfl⟩
  | allocTail size head | allocCas size head =>
    rw [hpc] at hnext
    simp only [Pc.next] at hnext
    split at hnext <;> cases hnext <;>
      exact ⟨Nat.le_refl _, transfer_apply_stay rfl (by rw [hpc]; rfl) rfl fun _ => rfl⟩
  | allocSlot size head =>
    rw [hpc] at hnext
    simp only [Pc.next] at hnext
    split at hnext
    · next hfree =>
      cases hnext
      exact ⟨Nat.le_refl _, transfer_allocSlot hpc hfree⟩
    · cases hnext
      exact ⟨Nat.le_refl _, transfer_apply_stay rfl (by rw [hpc]; rfl) rfl fun _ => rfl⟩
  | freeStore buf =>
    rw [hpc] at hnext
    cases hnext
    exact ⟨Nat.le_refl _, transfer_freeStore hex hpc⟩
  | putFallback buf =>
    rw [hpc] at hnext
    cases hnext
    exact ⟨Nat.le_refl _, transfer_putFallback hpc⟩

/-- `Alloc` makes a new buffer for a size out of range. -/
theorem transfer_make (hpc : (s.gs g).pc = .idle) (n : Nat) (p : RingBufferPool)
    (hslot : p.slotOwn = s.pool.slotOwn) (hfb : p.fallbackPool = s.pool.fallbackPool) :
    Transfer s.live (fun a => a < s.heap.next + 1) s.own
      (Machine.own ({ s with pool := p, heap := (s.heap.make n).2 }.setG g
        { held := (s.heap.make n).1 :: (s.gs g).held })) := by
  refine .acquire (.held g) s.heap.next (Nat.lt_irrefl _) (Nat.lt_succ_self _) (own_held_setG _)
    fun k hk => ?_
  refine own_congr (s := s) (fun k hk => Function.update_of_ne hk ..) (fun hk' => absurd hk' hk)
    (fun _ => ?_) (fun _ => congrArg (fun q : SyncPool Slice => addrs q.items) hfb)
    fun i _ => congrFun hslot i
  rw [own_inFree_setG]
  show 0 = (s.gs g).pc.carried
  rw [hpc]
  rfl

theorem transfer_callAlloc (hpc : (s.gs g).pc = .idle) (size : Int) :
    s.heap.next ≤ (s.callAlloc g size).heap.next ∧
      Transfer s.live (s.callAlloc g size).live s.own (s.callAlloc g size).own := by
  unfold callAlloc
  simp only
  split
  · exact ⟨Nat.le_succ _, transfer_make hpc 0 _ rfl rfl⟩
  · split
    · exact ⟨Nat.le_succ _, transfer_make hpc size.toNat _ rfl rfl⟩
    · refine ⟨Nat.le_refl _, .stay fun k => own_congr (fun k hk => setG_of_ne hk)
        (fun _ => own_held_setG _) (fun _ => ?_) (fun _ => rfl) fun i _ => rfl⟩
      rw [own_inFree_setG]
      show 0 = (s.gs g).pc.carried
      rw [hpc]
      rfl

theorem transfer_callFree (hpc : (s.gs g).pc = .idle) {i : Nat} {buf : Slice}
    (hbuf : (s.gs g).held[i]? = some buf) :
    Transfer s.live s.live s.own (s.callFree g i buf).own := by
  have hheld : s.own (.held g) = buf.ptr ::ₘ (s.callFree g i buf).own (.held g) := by
    unfold callFree
    rw [own_held_setG]
    exact addrs_eraseIdx hbuf
  have hinFree : s.own (.inFree g) = 0 := by
    show (s.gs g).pc.carried = 0
    rw [hpc]
    rfl
  have hinFree' : (s.callFree g i buf).own (.inFree g) = (freePc s.pool.toRing buf).carried :=
    own_inFree_setG _
  have hne : ∀ k, k ≠ g → (s.callFree g i buf).gs k = s.gs k := fun k hk => setG_of_ne hk
  by_cases hpool : (freePc s.pool.toRing buf).carried = 0
  · refine .drop (.held g) buf.ptr hheld fun k hk => ?_
    exact own_congr hne (fun hk' => absurd hk' hk)
      (fun _ => by rw [hinFree', hinFree, hpool]) (fun _ => rfl) fun i _ => rfl
  · refine .move (.held g) (.inFree g) buf.ptr nofun hheld ?_ fun k hk hk' => ?_
    · rw [hinFree', hinFree]
      unfold freePc at hpool ⊢
      split
      · rfl
      · next hring =>
        rw [if_neg hring] at hpool
        split
        · rfl
        · next hcap => exact absurd (by rw [if_neg hcap]; rfl) hpool
    · exact own_congr hne (fun h => absurd h hk) (fun h => absurd h hk') (fun _ => rfl)
        fun i _ => rfl

theorem transfer_handOver {i g' : Nat} {buf : Slice} (hbuf : (s.gs g).held[i]? = some buf) :
    Transfer s.live s.live s.own (s.handOver g i g' buf).own := by
  have hheld := addrs_eraseIdx hbuf
  by_cases hg : g' = g
  · subst hg
    refine .stay fun k => own_congr (g := g') (fun k hk => ?_) (fun _ => ?_) (fun _ => ?_)
      (fun _ => rfl) fun i _ => rfl
    · simp only [handOver, setG, Function.update_of_ne hk]
    · unfold handOver
      rw [own_held_setG, addrs_cons]
      simp only [setG, Function.update_self]
      exact hheld.symm
    · unfold handOver
      rw [own_inFree_setG]
      simp only [setG, Function.update_self]
      rfl
  · have hgs : ∀ k, k ≠ g → k ≠ g' → (s.handOver g i g' buf).gs k = s.gs k := by
      intro k hk hk'
      simp only [handOver, setG, Function.update_of_ne hk, Function.update_of_ne hk']
    have hfrom : (s.handOver g i g' buf).gs g =
        { s.gs g with held := (s.gs g).held.eraseIdx i } := by
      simp only [handOver, setG, Function.update_of_ne (Ne.symm hg), Function.update_self]
    have hto : (s.handOver g i g' buf).gs g' =
        { s.gs g' with held := buf :: (s.gs g').held } := by
      simp only [handOver, setG, Function.update_self, Function.update_of_ne hg]
    refine .move (.held g) (.held g') buf.ptr (fun h => hg (by cases h; rfl)) ?_ ?_
      fun k hk hk' => ?_
    · show addrs (s.gs g).held = _ ::ₘ addrs ((s.handOver g i g' buf).gs g).held
      rw [hfrom]
      exact hheld
    · show addrs ((s.handOver g i g' buf).gs g').held = _
      rw [hto]
      rfl
    · cases k with
      | held k =>
        show addrs ((s.handOver g i g' buf).gs k).held = addrs (s.gs k).held
        rw [hgs k (fun h => hk (by rw [h])) (fun h => hk' (by rw [h]))]
      | inFree k =>
        show ((s.handOver g i g' buf).gs k).pc.carried = (s.gs k).pc.carried
        by_cases hkg : k = g
        · rw [hkg, hfrom]
        · by_cases hkg' : k = g'
          · rw [hkg', hto]
          · rw [hgs k hkg hkg']
      | fallback => rfl
      | slot i => rfl

/-- **Every step transfers at most one buffer.** -/
theorem transfer_step {act : Act} (hex : Exclusive s.live s.own) (hstep : s.step act = some s') :
    s.heap.next ≤ s'.heap.next ∧ Transfer s.live s'.live s.own s'.own := by
  cases act with
  | alloc g size =>
    obtain ⟨hpc, rfl⟩ := step_alloc hstep
    exact transfer_callAlloc hpc size
  | free g i =>
    obtain ⟨hpc, buf, hbuf, rfl⟩ := step_free hstep
    exact ⟨Nat.le_refl _, transfer_callFree hpc hbuf⟩
  | tick g =>
    obtain ⟨o, hnext, rfl⟩ := Option.map_eq_some_iff.mp hstep
    exact transfer_tick hex hnext
  | give g i g' =>
    obtain ⟨buf, hbuf, rfl⟩ := Option.map_eq_some_iff.mp hstep
    exact ⟨Nat.le_refl _, transfer_handOver hbuf⟩
  | write g i bytes =>
    obtain ⟨buf, -, hwrite⟩ := Option.bind_eq_some_iff.mp hstep
    split at hwrite
    · cases hwrite
      exact ⟨Nat.le_refl _, .stay fun k => by cases k <;> rfl⟩
    · cases hwrite

/-! ## Whole runs -/

theorem exclusive_step {act : Act} (hex : Exclusive s.live s.own) (hstep : s.step act = some s') :
    Exclusive s'.live s'.own := by
  obtain ⟨hnext, htransfer⟩ := transfer_step hex hstep
  exact hex.transfer (fun a ha => Nat.lt_of_lt_of_le ha hnext) htransfer

theorem exclusive_init {pool : RingBufferPool} {heap : Heap} (hnew : pool.New heap) :
    Exclusive (init pool heap).live (init pool heap).own := by
  have hslot : ∀ {place a}, a ∈ (init pool heap).own place →
      ∃ i : Fin pool.capacity.toNat, place = .slot i ∧ a = pool.buffers[i].ptr := by
    intro place a ha
    cases place with
    | held g | inFree g => exact absurd ha (Multiset.notMem_zero a)
    | fallback =>
      change a ∈ addrs pool.fallbackPool.items at ha
      rw [hnew.fallback_empty] at ha
      exact absurd ha (Multiset.notMem_zero a)
    | slot i =>
      change a ∈ pool.slotOwn i at ha
      by_cases hi : i < pool.capacity.toNat
      · rw [RingBufferPool.slotOwn_of_free (i := ⟨i, hi⟩) (hnew.slot_free ⟨i, hi⟩)] at ha
        exact ⟨⟨i, hi⟩, rfl, Multiset.mem_singleton.mp ha⟩
      · rw [RingBufferPool.slotOwn, dif_neg hi] at ha
        exact absurd ha (Multiset.notMem_zero a)
  refine ⟨fun place => ?_, fun ha hb => ?_, fun ha => ?_⟩
  · cases place with
    | held g | inFree g => exact Multiset.nodup_zero
    | fallback =>
      show (addrs pool.fallbackPool.items).Nodup
      rw [hnew.fallback_empty]
      exact Multiset.nodup_zero
    | slot i =>
      show (pool.slotOwn i).Nodup
      unfold RingBufferPool.slotOwn
      split
      · split
        · exact Multiset.nodup_singleton _
        · exact Multiset.nodup_zero
      · exact Multiset.nodup_zero
  · obtain ⟨i, rfl, hi⟩ := hslot ha
    obtain ⟨j, rfl, hj⟩ := hslot hb
    rw [Ring.buffers_ptr_inj (hi.symm.trans hj)]
  · obtain ⟨i, -, rfl⟩ := hslot ha
    exact hnew.ring_lt_next i

theorem noTwoHolders_of_exclusive (hex : Exclusive s.live s.own) : s.NoTwoHolders := by
  intro g g' i i' b b' hb hb' _ hptr
  have hg : Place.held g = .held g' := hex.unique (mem_addrs (List.mem_of_getElem? hb))
    (hptr ▸ mem_addrs (List.mem_of_getElem? hb'))
  cases hg
  have hnd : ((s.gs g).held.map Slice.ptr).Nodup := Multiset.coe_nodup.mp (hex.nodup (.held g))
  refine ⟨rfl, (List.getElem?_inj ?_ hnd).mp ?_⟩
  · rw [List.length_map]
    exact (List.getElem?_eq_some_iff.mp hb).1
  · rw [List.getElem?_map, List.getElem?_map, hb, hb', Option.map_some, Option.map_some, hptr]

/-- The bytes that a step of `g` changes are those of the buffer it frees, or new ones. -/
theorem mem_of_next {pc : Pc} {p : RingBufferPool} {h : Heap} {o : Outcome}
    (hnext : pc.next p h = some o) {a : Nat} (ha : a < h.next) (hcarried : a ∉ pc.carried) :
    o.heap.mem a = h.mem a := by
  cases pc with
  | idle => cases hnext
  | freeClear buf | putClear buf =>
    cases hnext
    exact Function.update_of_ne (fun he => hcarried (Multiset.mem_singleton.mpr he)) ..
  | allocGet size =>
    unfold Pc.next at hnext
    rcases p.getFallback_cases h with ⟨i, buf, pool, -, -, heq⟩ | ⟨pool, -, heq⟩
    · simp only [heq, Option.some.injEq] at hnext
      subst hnext
      rfl
    · simp only [heq, Option.some.injEq] at hnext
      subst hnext
      exact Function.update_of_ne (Nat.ne_of_lt ha) ..
  | allocTail size head | allocCas size head | allocSlot size head =>
    simp only [Pc.next] at hnext
    split at hnext <;> cases hnext <;> rfl
  | _ => cases hnext; rfl

theorem contentsKept_step {act : Act} (hex : Exclusive s.live s.own)
    (hstep : s.step act = some s') : ContentsKept s act s' := by
  intro k b hb hact
  have hmem : b.ptr ∈ s.own (.held k) := mem_addrs hb
  have hlive : b.ptr < s.heap.next := hex.live_of_mem hmem
  cases act with
  | alloc g size =>
    obtain ⟨-, rfl⟩ := step_alloc hstep
    unfold callAlloc
    simp only
    split
    · exact Function.update_of_ne (Nat.ne_of_lt hlive) ..
    · split
      · exact Function.update_of_ne (Nat.ne_of_lt hlive) ..
      · rfl
  | free g i =>
    obtain ⟨-, buf, -, rfl⟩ := step_free hstep
    rfl
  | tick g =>
    obtain ⟨o, hnext, rfl⟩ := Option.map_eq_some_iff.mp hstep
    refine mem_of_next hnext hlive fun hcarried => ?_
    exact nomatch hex.unique hmem (show b.ptr ∈ s.own (.inFree g) from hcarried)
  | give g i g' =>
    obtain ⟨buf, -, rfl⟩ := Option.map_eq_some_iff.mp hstep
    rfl
  | write g i bytes =>
    obtain ⟨buf, hbuf, hwrite⟩ := Option.bind_eq_some_iff.mp hstep
    split at hwrite
    · cases hwrite
      refine Function.update_of_ne (fun hptr => ?_) ..
      have hg : Place.held k = .held g := hex.unique hmem
        (hptr ▸ mem_addrs (List.mem_of_getElem? hbuf))
      cases hg
      exact hact i bytes rfl
    · cases hwrite

/--
**In every run of `Alloc` and `Free` by any number of goroutines no buffer of the pool is held
twice, and nobody but its holder changes the bytes of a buffer that is held.**
-/
theorem exclusive_ownership {bufferSize : Int} {capacity : UInt64} {pick : Nat → Option Nat}
    {h heap : Heap} {pool : RingBufferPool}
    (hnew : newRingBufferPool bufferSize capacity pick h = .ok (pool, heap)) (acts : List Act) :
    EachState step NoTwoHolders (init pool heap) acts ∧
      EachStep step ContentsKept (init pool heap) acts := by
  have hinit := exclusive_init (newRingBufferPool_new hnew)
  refine ⟨⟨noTwoHolders_of_exclusive hinit, ?_⟩, ?_⟩
  · refine eachStep_of_inv (I := fun s => Exclusive s.live s.own) (fun s a s' hex hs => ?_) hinit
    have hex' := exclusive_step hex hs
    exact ⟨noTwoHolders_of_exclusive hex', hex'⟩
  · refine eachStep_of_inv (I := fun s => Exclusive s.live s.own) (fun s a s' hex hs => ?_) hinit
    exact ⟨contentsKept_step hex hs, exclusive_step hex hs⟩

/-- Two goroutines race for the slots of a pool of two buffers. -/
theorem exclusive_two_goroutines :
    ∃ pool heap, newRingBufferPool 8 2 (fun _ => none) ⟨0, fun _ => []⟩ = .ok (pool, heap) ∧
      EachState step NoTwoHolders (init pool heap) [.alloc 0 8, .alloc 1 8, .tick 0, .tick 1,
        .tick 0, .tick 1, .tick 1, .tick 0, .tick 1, .tick 0] := by
  have hnew : newRingBufferPool 8 2 (fun _ => none) ⟨0, fun _ => []⟩ = .ok (_, _) := rfl
  exact ⟨_, _, hnew, (exclusive_ownership hnew _).1⟩

end Machine

end FabricaNet.Ringpool
