import FabricaNet.Ringpool.Counters
import FabricaNet.Ringpool.Zeroed

/-!
# Pools of several sizes under concurrency

Any number of goroutines call `Alloc` and `Free` of one `MultiSizeRingPool`. Nothing takes the write
lock of the pools, so the read lock keeps nobody out; `sizes` and the map do not change. Between the
choice of a pool and the return, a call makes the atomic steps of that pool
(`FabricaNet/Ringpool/Atomic.lean`), interleaved with those of all others.

The pool for one size sees a `Machine`: the goroutines that are in calls of other pools are idle in
it (`view`). So what is known of one pool is known of each, and what is left to show is that the
pools do not disturb each other, although they share the heap.

A call that nobody interferes with is the call of `FabricaNet/Ringpool/MultiPool.lean`
(`run_alloc_of_sizes`).
-/

namespace FabricaNet.Ringpool

open Go Lib

/-! ## The machine -/

/-- A goroutine, and the size of the pool whose call it is in. -/
structure MultiGoroutine extends Goroutine where
  size : Int := 0

/-- How the pool for a size sees a goroutine. -/
def MultiGoroutine.view (size : Int) (x : MultiGoroutine) : Goroutine :=
  { pc := if x.size = size then x.pc else .idle, held := x.held }

/-- The pools, the heap and the goroutines. -/
structure MultiMachine where
  pool : MultiSizeRingPool
  heap : Heap
  gs : Nat → MultiGoroutine

inductive MultiAct where
  /-- `g` calls `Alloc(size)` -/
  | alloc (g : Nat) (size : Int)
  /-- `g` calls `Free` on the `i`-th buffer that it holds -/
  | free (g i : Nat)
  /-- the next step of the call that `g` is in -/
  | tick (g : Nat)
  /-- `g` writes to the `i`-th buffer that it holds, from `off` on and up to its capacity -/
  | write (g i off : Nat) (bytes : Bytes)

/-- The loop of `Alloc` over the sizes: the pool that it calls. -/
def findPool (pools : PoolMap) (size : Int) : List Int → Option Int
  | [] => none
  | poolSize :: rest =>
    if poolSize ≥ size ∧ poolSize ∈ pools then some poolSize else findPool pools size rest

namespace MultiMachine

/-- Pools that nobody uses yet. -/
def init (pool : MultiSizeRingPool) (heap : Heap) : MultiMachine :=
  { pool := pool, heap := heap, gs := fun _ => {} }

/-- What the pool for a size sees. -/
def view (s : MultiMachine) (size : Int) (pool : RingBufferPool) : Machine :=
  { pool := pool, heap := s.heap, gs := fun g => (s.gs g).view size }

theorem toRing_of_view_step {s : MultiMachine} {size : Int} {pool : RingBufferPool} {a : Act}
    {m : Machine} (hstep : (s.view size pool).step a = some m) : m.pool.toRing = pool.toRing :=
  Machine.step_toRing hstep

/-- The machine after `g` has left the pool for a size, and the heap, as in `m`. -/
def leave (s : MultiMachine) (g : Nat) {size : Int} {pool : RingBufferPool}
    (hpool : s.pool.pools.lookup size = some pool) (m : Machine)
    (hring : m.pool.toRing = pool.toRing) : MultiMachine where
  pool := s.pool.setPool hpool m.pool hring
  heap := m.heap
  gs := Function.update s.gs g { m.gs g with size := size }

/-- `g` makes a step in the pool for a size. -/
def inPool (s : MultiMachine) (g : Nat) (size : Int) (a : Act) : Option MultiMachine :=
  match hpool : s.pool.pools.lookup size with
  | none => none
  | some pool =>
    match hstep : (s.view size pool).step a with
    | none => none
    | some m => some (s.leave g hpool m (toRing_of_view_step hstep))

/-- The machine in which `g` holds other buffers. -/
def setHeld (s : MultiMachine) (g : Nat) (held : List Slice) : MultiMachine :=
  { s with gs := Function.update s.gs g { s.gs g with held := held } }

/-- One action. A goroutine calls `Alloc` and `Free` only when it is in no call. -/
def step (s : MultiMachine) : MultiAct → Option MultiMachine
  | .alloc g size =>
    match (s.gs g).pc with
    | .idle =>
      match findPool s.pool.pools size s.pool.sizes with
      | some poolSize => s.inPool g poolSize (.alloc g size)
      | none =>
        let (buf, h) := s.heap.make size.toNat
        some ({ s with heap := h }.setHeld g (buf :: (s.gs g).held))
    | _ => none
  | .free g i =>
    match (s.gs g).pc with
    | .idle =>
      (s.gs g).held[i]?.bind fun buf =>
        if (buf.cap : Int) ∈ s.pool.pools then s.inPool g buf.cap (.free g i)
        else some (s.setHeld g ((s.gs g).held.eraseIdx i))
    | _ => none
  | .tick g => s.inPool g (s.gs g).size (.tick g)
  | .write g i off bytes =>
    (s.gs g).held[i]?.bind fun buf =>
      if off + bytes.length ≤ buf.cap then some { s with heap := s.heap.writeAt buf off bytes }
      else none

/-! ## What a step can do -/

/-- A step of `g` in the pool for a size. -/
structure InPool (s : MultiMachine) (g : Nat) (size : Int) (a : Act) (s' : MultiMachine)
    (pool pool' : RingBufferPool) : Prop where
  lookup : s.pool.pools.lookup size = some pool
  pools_eq : s'.pool.pools = s.pool.pools.insert size pool'
  sizes_eq : s'.pool.sizes = s.pool.sizes
  view_step : (s.view size pool).step a = some (s'.view size pool')
  frame : ∀ k, k ≠ g → s'.gs k = s.gs k
  size_eq : (s'.gs g).size = size

/-- Every way in which an action changes the machine. -/
inductive Goes (s : MultiMachine) : MultiAct → MultiMachine → Prop
  | alloc {g : Nat} {n size : Int} {s' : MultiMachine} {pool pool' : RingBufferPool}
      (idle : (s.gs g).pc = .idle) (found : findPool s.pool.pools n s.pool.sizes = some size)
      (inPool : InPool s g size (.alloc g n) s' pool pool') : Goes s (.alloc g n) s'
  | make {g : Nat} {n : Int} (idle : (s.gs g).pc = .idle)
      (found : findPool s.pool.pools n s.pool.sizes = none) :
      Goes s (.alloc g n) ({ s with heap := (s.heap.make n.toNat).2 }.setHeld g
        ((s.heap.make n.toNat).1 :: (s.gs g).held))
  | free {g i : Nat} {buf : Slice} {s' : MultiMachine} {pool pool' : RingBufferPool}
      (idle : (s.gs g).pc = .idle) (held : (s.gs g).held[i]? = some buf)
      (inPool : InPool s g buf.cap (.free g i) s' pool pool') : Goes s (.free g i) s'
  | forget {g i : Nat} {buf : Slice} (idle : (s.gs g).pc = .idle)
      (held : (s.gs g).held[i]? = some buf) (none : (buf.cap : Int) ∉ s.pool.pools) :
      Goes s (.free g i) (s.setHeld g ((s.gs g).held.eraseIdx i))
  | tick {g : Nat} {s' : MultiMachine} {pool pool' : RingBufferPool}
      (inPool : InPool s g (s.gs g).size (.tick g) s' pool pool') : Goes s (.tick g) s'
  | write {g i off : Nat} {bytes : Bytes} {buf : Slice} (held : (s.gs g).held[i]? = some buf)
      (fits : off + bytes.length ≤ buf.cap) :
      Goes s (.write g i off bytes) { s with heap := s.heap.writeAt buf off bytes }

variable {s s' : MultiMachine} {g : Nat} {size : Int} {pool pool' : RingBufferPool} {a : Act}

/-- A step of `g` in a pool moves nobody else. -/
theorem machine_step_frame {m m' : Machine} (ha : a.goroutine = g)
    (hgive : ∀ i g', a ≠ .give g i g') (hstep : m.step a = some m') {k : Nat} (hk : k ≠ g) :
    m'.gs k = m.gs k := by
  cases a with
  | alloc g₁ n =>
    cases ha
    obtain ⟨-, rfl⟩ := Machine.step_alloc hstep
    unfold Machine.callAlloc
    simp only
    split
    · exact Function.update_of_ne hk ..
    · split <;> exact Function.update_of_ne hk ..
  | free g₁ i =>
    cases ha
    obtain ⟨-, buf, -, rfl⟩ := Machine.step_free hstep
    exact Function.update_of_ne hk ..
  | tick g₁ =>
    cases ha
    obtain ⟨o, -, rfl⟩ := Option.map_eq_some_iff.mp hstep
    exact Function.update_of_ne hk ..
  | give g₁ i g' =>
    cases ha
    exact absurd rfl (hgive i g')
  | write g₁ i bytes =>
    obtain ⟨buf, -, hwrite⟩ := Option.bind_eq_some_iff.mp hstep
    split at hwrite <;> cases hwrite
    rfl

/-- The pool that `g` has left sees what `g` has left. -/
theorem view_leave {hpool : s.pool.pools.lookup size = some pool} {m : Machine}
    {hring : m.pool.toRing = pool.toRing} (hframe : ∀ k, k ≠ g → m.gs k = (s.gs k).view size) :
    (s.leave g hpool m hring).view size m.pool = m := by
  have hgs : ∀ k, ((s.leave g hpool m hring).gs k).view size = m.gs k := by
    intro k
    show (Function.update s.gs g { m.gs g with size := size } k).view size = m.gs k
    by_cases hk : k = g
    · subst hk
      rw [Function.update_self]
      exact congrArg (fun pc => Goroutine.mk pc (m.gs k).held) (if_pos rfl)
    · rw [Function.update_of_ne hk]
      exact (hframe k hk).symm
  exact congrArg (Machine.mk m.pool m.heap) (funext hgs)

theorem inPool_of_step (g : Nat) (hpool : s.pool.pools.lookup size = some pool) {m : Machine}
    (hstep : (s.view size pool).step a = some m) :
    s.inPool g size a = some (s.leave g hpool m (toRing_of_view_step hstep)) := by
  unfold inPool
  split
  · next hnone => exact absurd (hnone.symm.trans hpool) nofun
  · next p hp =>
    obtain rfl : pool = p := Option.some.inj (hpool.symm.trans hp)
    split
    · next hnone => exact absurd (hnone.symm.trans hstep) nofun
    · next m₁ hm₁ =>
      obtain rfl : m = m₁ := Option.some.inj (hstep.symm.trans hm₁)
      rfl

theorem inPool_spec (h : s.inPool g size a = some s') (ha : a.goroutine = g)
    (hgive : ∀ i g', a ≠ .give g i g') : ∃ pool pool', InPool s g size a s' pool pool' := by
  unfold inPool at h
  split at h
  · cases h
  · next pool hpool =>
    split at h
    · cases h
    · next m hstep =>
      cases h
      refine ⟨pool, m.pool, hpool, rfl, rfl, ?_, fun k hk => Function.update_of_ne hk .., ?_⟩
      · rw [view_leave fun k hk => machine_step_frame ha hgive hstep hk]
        exact hstep
      · show (Function.update s.gs g _ g).size = size
        rw [Function.update_self]

/-- **Everything that a step can do.** -/
theorem goes_of_step {act : MultiAct} (h : s.step act = some s') : Goes s act s' := by
  cases act with
  | alloc g n =>
    simp only [step] at h
    split at h
    · next hidle =>
      split at h
      · next size hfound =>
        obtain ⟨pool, pool', hin⟩ := inPool_spec h rfl nofun
        exact .alloc hidle hfound hin
      · next hfound =>
        cases h
        exact .make hidle hfound
    · cases h
  | free g i =>
    simp only [step] at h
    split at h
    · next hidle =>
      obtain ⟨buf, hbuf, hfree⟩ := Option.bind_eq_some_iff.mp h
      split at hfree
      · obtain ⟨pool, pool', hin⟩ := inPool_spec hfree rfl nofun
        exact .free hidle hbuf hin
      · next hnone =>
        cases hfree
        exact .forget hidle hbuf hnone
    · cases h
  | tick g =>
    obtain ⟨pool, pool', hin⟩ := inPool_spec h rfl nofun
    exact .tick hin
  | write g i off bytes =>
    obtain ⟨buf, hbuf, hwrite⟩ := Option.bind_eq_some_iff.mp h
    obtain ⟨hfits, ⟨⟩⟩ := Option.ite_none_right_eq_some.mp hwrite
    exact .write hbuf hfits

end MultiMachine

/-! ## Places -/

/-- Where a buffer can be. -/
inductive Spot where
  | held (g : Nat)
  /-- inside a call of `Free` of the pool for this size by `g` -/
  | inFree (size : Int) (g : Nat)
  | shelf (size : Int) (k : Shelf)

/-- The places that the pool for a size knows of. -/
def Place.spot (size : Int) : Place → Spot
  | .held g => .held g
  | .inFree g => .inFree size g
  | .fallback => .shelf size .fallback
  | .slot i => .shelf size (.slot i)

theorem Place.spot_injective (size : Int) : Function.Injective (Place.spot size) := by
  intro p q h
  cases p <;> cases q <;> cases h <;> rfl

namespace MultiMachine

variable {s s' : MultiMachine} {g : Nat} {size : Int} {pool pool' : RingBufferPool} {a : Act}

/-- The buffers at each place, by address. -/
def own (s : MultiMachine) : Spot → Multiset Nat
  | .held g => addrs (s.gs g).held
  | .inFree size g => ((s.gs g).view size).pc.carried
  | .shelf size k => multiOwn s.pool.pools [] (.shelf size k)

/-- The addresses that have been allocated. -/
def live (s : MultiMachine) (a : Nat) : Prop := a < s.heap.next

theorem own_spot (hpool : s.pool.pools.lookup size = some pool) (p : Place) :
    s.own (p.spot size) = (s.view size pool).own p := by
  have hshelf : ∀ k, multiOwn s.pool.pools [] (.shelf size k) = pool.shelf k :=
    multiOwn_of_lookup hpool
  cases p with
  | held g | inFree g => rfl
  | fallback => exact hshelf .fallback
  | slot i => exact hshelf (.slot i)

theorem exclusive_view (hex : Exclusive s.live s.own)
    (hpool : s.pool.pools.lookup size = some pool) :
    Exclusive (s.view size pool).live (s.view size pool).own :=
  hex.comap (Place.spot_injective size) (own_spot hpool)

/-- A goroutine that is in no call, or in a call of another pool, has nothing in its hands. -/
theorem carried_view_of_ne {x : MultiGoroutine} {n : Int} (h : x.pc = .idle ∨ x.size = size)
    (hn : n ≠ size) : (x.view n).pc.carried = 0 := by
  unfold MultiGoroutine.view
  simp only
  split
  · next hx =>
    rcases h with hidle | hsize
    · rw [hidle]
      rfl
    · exact absurd (hx.symm.trans hsize) hn
  · rfl

namespace InPool

variable (h : InPool s g size a s' pool pool') (hg : (s.gs g).pc = .idle ∨ (s.gs g).size = size)
include h

theorem lookup' : s'.pool.pools.lookup size = some pool' := by
  rw [h.pools_eq]
  exact AList.lookup_insert _

theorem lookup_ne {n : Int} (hn : n ≠ size) :
    s'.pool.pools.lookup n = s.pool.pools.lookup n := by
  rw [h.pools_eq]
  exact AList.lookup_insert_ne hn

include hg in
/-- The other pools keep what they have. -/
theorem own_other (k : Spot) (hk : ∀ p : Place, k ≠ p.spot size) : s'.own k = s.own k := by
  cases k with
  | held k => exact absurd rfl (hk (.held k))
  | inFree n k =>
    have hn : n ≠ size := fun he => hk (.inFree k) (by rw [he]; rfl)
    show ((s'.gs k).view n).pc.carried = ((s.gs k).view n).pc.carried
    by_cases hkg : k = g
    · subst hkg
      rw [carried_view_of_ne hg hn, carried_view_of_ne (Or.inr h.size_eq) hn]
    · rw [h.frame k hkg]
  | shelf n k =>
    have hn : n ≠ size := by
      rintro rfl
      cases k with
      | slot i => exact hk (.slot i) rfl
      | fallback => exact hk .fallback rfl
    show multiOwn s'.pool.pools [] (.shelf n k) = multiOwn s.pool.pools [] (.shelf n k)
    simp only [multiOwn, h.lookup_ne hn]

include hg in
theorem transfer (hex : Exclusive s.live s.own) :
    s.heap.next ≤ s'.heap.next ∧ Transfer s.live s'.live s.own s'.own := by
  obtain ⟨hnext, ht⟩ := Machine.transfer_step (exclusive_view hex h.lookup) h.view_step
  exact ⟨hnext, ht.lift (Place.spot_injective size) (own_spot h.lookup) (own_spot h.lookup')
    (h.own_other hg)⟩

end InPool

theorem setHeld_held (held : List Slice) : ((s.setHeld g held).gs g).held = held := by
  show (Function.update s.gs g _ g).held = held
  rw [Function.update_self]

/-- When `g` holds other buffers, nothing else changes. -/
theorem own_setHeld {held : List Slice} {k : Spot} (hk : k ≠ .held g) :
    (s.setHeld g held).own k = s.own k := by
  cases k with
  | held k =>
    show addrs (Function.update s.gs g _ k).held = _
    rw [Function.update_of_ne fun he => hk (by rw [he])]
    rfl
  | inFree n k =>
    show ((Function.update s.gs g _ k).view n).pc.carried = _
    by_cases hkg : k = g
    · subst hkg
      rw [Function.update_self]
      rfl
    · rw [Function.update_of_ne hkg]
      rfl
  | shelf n k => rfl

/-- **Every step transfers at most one buffer.** -/
theorem transfer_of_goes {act : MultiAct} (hex : Exclusive s.live s.own) (h : Goes s act s') :
    s.heap.next ≤ s'.heap.next ∧ Transfer s.live s'.live s.own s'.own := by
  cases h with
  | alloc hidle hfound hin => exact hin.transfer (Or.inl hidle) hex
  | free hidle hheld hin => exact hin.transfer (Or.inl hidle) hex
  | tick hin => exact hin.transfer (Or.inr rfl) hex
  | @make g n hidle hfound =>
    refine ⟨Nat.le_succ _, .acquire (.held g) s.heap.next (Nat.lt_irrefl _) (Nat.lt_succ_self _)
      ?_ fun k hk => own_setHeld hk⟩
    show addrs (((_ : MultiMachine).setHeld g _).gs g).held = _
    rw [setHeld_held]
    rfl
  | @forget g i buf hidle hheld hnone =>
    refine ⟨Nat.le_refl _, .drop (.held g) buf.ptr ?_ fun k hk => own_setHeld hk⟩
    show addrs (s.gs g).held = _ ::ₘ addrs ((s.setHeld g _).gs g).held
    rw [setHeld_held]
    exact addrs_eraseIdx hheld
  | write hheld hfits => exact ⟨Nat.le_refl _, .stay fun k => by cases k <;> rfl⟩

theorem exclusive_of_goes {act : MultiAct} (hex : Exclusive s.live s.own) (h : Goes s act s') :
    Exclusive s'.live s'.own := by
  obtain ⟨hnext, ht⟩ := transfer_of_goes hex h
  exact hex.transfer (fun a ha => Nat.lt_of_lt_of_le ha hnext) ht

theorem exclusive_init {m : AList fun _ : Int => UInt64} {pick : Int → Nat → Option Nat}
    {h heap : Heap} {mp : MultiSizeRingPool}
    (hnew : newMultiSizeRingPool m pick h = .ok (mp, heap)) :
    Exclusive (init mp heap).live (init mp heap).own := by
  have hex := (zeroed_new hnew).exclusive
  have hshelf : ∀ {k a}, a ∈ (init mp heap).own k →
      ∃ size j, k = .shelf size j ∧ a ∈ multiOwn mp.pools [] (.shelf size j) := by
    intro k a ha
    cases k with
    | held g => exact absurd ha (Multiset.notMem_zero a)
    | inFree n g =>
      change a ∈ Pc.carried (if (0 : Int) = n then .idle else .idle) at ha
      rw [ite_self] at ha
      exact absurd ha (Multiset.notMem_zero a)
    | shelf n j => exact ⟨n, j, rfl, ha⟩
  refine ⟨fun k => ?_, fun ha hb => ?_, fun ha => ?_⟩
  · cases k with
    | held g => exact Multiset.nodup_zero
    | inFree n g =>
      show (Pc.carried (if (0 : Int) = n then .idle else .idle)).Nodup
      rw [ite_self]
      exact Multiset.nodup_zero
    | shelf n j => exact hex.nodup (.shelf n j)
  · obtain ⟨n, j, rfl, ha'⟩ := hshelf ha
    obtain ⟨n', j', rfl, hb'⟩ := hshelf hb
    cases hex.unique ha' hb'
    rfl
  · obtain ⟨n, j, rfl, ha'⟩ := hshelf ha
    exact hex.live_of_mem ha'

/-! ## Nobody but the holder changes a buffer -/

end MultiMachine

/-- The bytes that a step of one pool changes are those of a buffer inside `Free`, or new ones. -/
theorem Machine.mem_of_step {m m' : Machine} {a : Act} (hstep : m.step a = some m') {x : Nat}
    (hx : x < m.heap.next) (htick : ∀ g, a = .tick g → x ∉ (m.gs g).pc.carried)
    (hwrite : ∀ g i bytes, a ≠ .write g i bytes) : m'.heap.mem x = m.heap.mem x := by
  cases a with
  | alloc g size =>
    obtain ⟨-, rfl⟩ := step_alloc hstep
    unfold callAlloc
    simp only
    split
    · exact Function.update_of_ne (Nat.ne_of_lt hx) ..
    · split
      · exact Function.update_of_ne (Nat.ne_of_lt hx) ..
      · rfl
  | free g i =>
    obtain ⟨-, buf, -, rfl⟩ := step_free hstep
    rfl
  | tick g =>
    obtain ⟨o, hnext, rfl⟩ := Option.map_eq_some_iff.mp hstep
    exact mem_of_next hnext hx (htick g rfl)
  | give g i g' =>
    obtain ⟨buf, -, rfl⟩ := Option.map_eq_some_iff.mp hstep
    rfl
  | write g i bytes => exact absurd rfl (hwrite g i bytes)

/-- The place whose buffers an action may change. -/
def MultiAct.touches (s : MultiMachine) : MultiAct → Option Spot
  | .tick g => some (.inFree (s.gs g).size g)
  | .write g _ _ _ => some (.held g)
  | _ => none

namespace MultiMachine

variable {s s' : MultiMachine} {g : Nat} {size : Int} {pool pool' : RingBufferPool} {a : Act}
  {act : MultiAct}

theorem InPool.mem_eq (h : InPool s g size a s' pool pool') {x : Nat} (hx : s.live x)
    (htick : ∀ k, a = .tick k → x ∉ ((s.gs k).view size).pc.carried)
    (hwrite : ∀ g i bytes, a ≠ .write g i bytes) : s'.heap.mem x = s.heap.mem x :=
  Machine.mem_of_step h.view_step hx htick hwrite

/-- **A buffer that lies at another place than the one an action touches keeps its bytes.** -/
theorem mem_of_goes (hex : Exclusive s.live s.own) (h : Goes s act s') {k : Spot} {x : Nat}
    (hx : x ∈ s.own k) (hk : act.touches s ≠ some k) : s'.heap.mem x = s.heap.mem x := by
  have hlive : s.live x := hex.live_of_mem hx
  cases h with
  | alloc hidle hfound hin => exact hin.mem_eq hlive nofun nofun
  | free hidle hheld hin => exact hin.mem_eq hlive nofun nofun
  | @tick g s' pool pool' hin =>
    refine hin.mem_eq hlive (fun k' hk' hcarried => hk ?_) nofun
    cases hk'
    have hspot : k = .inFree (s.gs g).size g := hex.unique hx hcarried
    rw [hspot]
    rfl
  | make hidle hfound => exact Function.update_of_ne (Nat.ne_of_lt hlive) ..
  | forget hidle hheld hnone => rfl
  | @write g i off bytes buf hheld hfits =>
    refine Function.update_of_ne (fun hptr => hk ?_) ..
    have hspot : k = .held g := hex.unique hx (hptr ▸ mem_addrs (List.mem_of_getElem? hheld))
    rw [hspot]
    rfl

/-- No buffer is held twice, whatever pool it comes from. -/
def NoTwoHolders (s : MultiMachine) : Prop :=
  ∀ g g' (i i' : Nat) b b', (s.gs g).held[i]? = some b → (s.gs g').held[i']? = some b' →
    b.ptr = b'.ptr → g = g' ∧ i = i'

/-- The bytes of a buffer that is held are not changed by anyone but the holder's own writes. -/
def ContentsKept (s : MultiMachine) (act : MultiAct) (s' : MultiMachine) : Prop :=
  ∀ g, ∀ b ∈ (s.gs g).held, (∀ i off bytes, act ≠ .write g i off bytes) →
    s'.heap.mem b.ptr = s.heap.mem b.ptr

theorem noTwoHolders_of_exclusive (hex : Exclusive s.live s.own) : s.NoTwoHolders := by
  intro g g' i i' b b' hb hb' hptr
  have hg : Spot.held g = .held g' := hex.unique (mem_addrs (List.mem_of_getElem? hb))
    (hptr ▸ mem_addrs (List.mem_of_getElem? hb'))
  cases hg
  have hnd : ((s.gs g).held.map Slice.ptr).Nodup := Multiset.coe_nodup.mp (hex.nodup (.held g))
  refine ⟨rfl, (List.getElem?_inj ?_ hnd).mp ?_⟩
  · rw [List.length_map]
    exact (List.getElem?_eq_some_iff.mp hb).1
  · rw [List.getElem?_map, List.getElem?_map, hb, hb', Option.map_some, Option.map_some, hptr]

theorem contentsKept_of_goes (hex : Exclusive s.live s.own) (h : Goes s act s') :
    ContentsKept s act s' := by
  intro g b hb hact
  refine mem_of_goes hex h (k := .held g) (mem_addrs hb) fun htouch => ?_
  cases act with
  | write g' i off bytes =>
    cases htouch
    exact hact i off bytes rfl
  | _ => cases htouch

/--
**In every run of `Alloc` and `Free` of the pools of all sizes by any number of goroutines, no
buffer is held twice, and nobody but its holder changes the bytes of a buffer that is held.**
-/
theorem exclusive_ownership_of_sizes {m : AList fun _ : Int => UInt64}
    {pick : Int → Nat → Option Nat} {h heap : Heap} {mp : MultiSizeRingPool}
    (hnew : newMultiSizeRingPool m pick h = .ok (mp, heap)) (acts : List MultiAct) :
    EachState step NoTwoHolders (init mp heap) acts ∧
      EachStep step ContentsKept (init mp heap) acts := by
  have hinit := exclusive_init hnew
  refine ⟨⟨noTwoHolders_of_exclusive hinit, ?_⟩, ?_⟩
  · refine eachStep_of_inv (I := fun s => Exclusive s.live s.own) (fun s a s' hex hs => ?_) hinit
    have hex' := exclusive_of_goes hex (goes_of_step hs)
    exact ⟨noTwoHolders_of_exclusive hex', hex'⟩
  · refine eachStep_of_inv (I := fun s => Exclusive s.live s.own) (fun s a s' hex hs => ?_) hinit
    have hgoes := goes_of_step hs
    exact ⟨contentsKept_of_goes hex hgoes, exclusive_of_goes hex hgoes⟩

/--
Two sizes, and two goroutines that allocate, one in each pool and then both in the smaller one.
-/
theorem exclusive_ownership_two_sizes :
    ∃ mp heap, newMultiSizeRingPool
        ((AList.singleton (2 : Int) (1 : UInt64)).insert 4 1) (fun _ _ => none)
        ⟨0, fun _ => []⟩ = .ok (mp, heap) ∧
      EachState step NoTwoHolders (init mp heap) ([.alloc 0 2, .alloc 1 3] ++
        [0, 1, 0, 1, 0, 1, 0, 1].map .tick ++ [.alloc 1 1] ++ [1, 1, 1, 1].map .tick) := by
  have hnew : newMultiSizeRingPool ((AList.singleton (2 : Int) (1 : UInt64)).insert 4 1)
    (fun _ _ => none) ⟨0, fun _ => []⟩ = .ok (_, _) := rfl
  exact ⟨_, _, hnew, (exclusive_ownership_of_sizes hnew _).1⟩

/-! ## What `Alloc` returns has the length asked for -/

end MultiMachine

/-- The size that a call of `Alloc` asks for. -/
def Pc.wants : Pc → Option Nat
  | .allocHead size | .allocTail size _ | .allocCas size _ | .allocSlot size _ => some size
  | .allocFallback size | .allocGet size => some size
  | _ => none

/-- The goroutine is in a call of `Alloc(n)`, or has got what the call has returned. -/
def MultiGoroutine.Gets (n : Nat) (x : MultiGoroutine) : Prop :=
  x.pc.wants = some n ∨ x.pc = .idle ∧ ∃ buf, x.held.head? = some buf ∧ buf.len = n

theorem Pc.wants_of_next {pc : Pc} {p : RingBufferPool} {h : Heap} {o : Outcome} {n : Nat}
    (hnext : pc.next p h = some o) (hw : pc.wants = some n) :
    (o.pc.wants = some n ∧ o.returned = []) ∨
      (o.pc = .idle ∧ ∃ buf, o.returned = [buf] ∧ buf.len = n) := by
  cases pc with
  | allocHead size | allocFallback size =>
    cases hnext
    exact Or.inl ⟨hw, rfl⟩
  | allocTail size head | allocCas size head =>
    simp only [Pc.next] at hnext
    split at hnext <;> cases hnext <;> exact Or.inl ⟨hw, rfl⟩
  | allocSlot size head =>
    cases hw
    simp only [Pc.next] at hnext
    split at hnext <;> cases hnext
    · exact Or.inr ⟨rfl, _, rfl, rfl⟩
    · exact Or.inl ⟨rfl, rfl⟩
  | allocGet size =>
    cases hw
    cases hnext
    exact Or.inr ⟨rfl, _, rfl, rfl⟩
  | _ => cases hw

/-- The goroutine that acts. -/
def MultiAct.goroutine : MultiAct → Nat
  | .alloc g _ | .free g _ | .tick g | .write g _ _ _ => g

namespace MultiMachine

variable {s s' : MultiMachine} {g : Nat} {size : Int} {pool pool' : RingBufferPool} {a : Act}
  {act : MultiAct}

/-- An action moves nobody but the goroutine that acts. -/
theorem gs_of_goes (h : Goes s act s') {k : Nat} (hk : k ≠ act.goroutine) :
    s'.gs k = s.gs k := by
  cases h with
  | alloc hidle hfound hin => exact hin.frame k hk
  | free hidle hheld hin => exact hin.frame k hk
  | tick hin => exact hin.frame k hk
  | make hidle hfound => exact Function.update_of_ne hk ..
  | forget hidle hheld hnone => exact Function.update_of_ne hk ..
  | write hheld hfits => rfl

/-- After a step in a pool the goroutine is where the pool sees it. -/
theorem InPool.gs_eq (h : InPool s g size a s' pool pool') :
    (s'.gs g).toGoroutine = (s'.view size pool').gs g :=
  congrArg (fun pc => Goroutine.mk pc (s'.gs g).held) (if_pos h.size_eq).symm

theorem gets_of_alloc {n : Int} (h : Goes s (.alloc g n) s') : (s'.gs g).Gets n.toNat := by
  cases h with
  | @alloc _ _ size _ pool pool' hidle hfound hin =>
    obtain ⟨-, heq⟩ := Machine.step_alloc hin.view_step
    have hgs := hin.gs_eq
    rw [heq] at hgs
    unfold MultiGoroutine.Gets
    rw [hgs]
    unfold Machine.callAlloc
    simp only
    split
    · next hle =>
      have hlen : (s.heap.make 0).1.len = n.toNat := (Int.toNat_of_nonpos hle).symm
      refine Or.inr ⟨?_, (s.heap.make 0).1, ?_, hlen⟩ <;>
        simp only [Machine.setG, Function.update_self]
      rfl
    · split
      · refine Or.inr ⟨?_, (s.heap.make n.toNat).1, ?_, rfl⟩ <;>
          simp only [Machine.setG, Function.update_self]
        rfl
      · left
        simp only [Machine.setG, Function.update_self]
        rfl
  | make hidle hfound =>
    refine Or.inr ⟨?_, (s.heap.make n.toNat).1, ?_, rfl⟩
    · show (Function.update s.gs g _ g).pc = .idle
      rw [Function.update_self]
      exact hidle
    · rw [setHeld_held]
      rfl

theorem gets_of_tick {n : Nat} (h : Goes s (.tick g) s') (hw : (s.gs g).Gets n) :
    (s'.gs g).Gets n := by
  cases h with
  | @tick _ _ pool pool' hin =>
    obtain ⟨o, hnext, heq⟩ := Option.map_eq_some_iff.mp hin.view_step
    have hpc : ((s.view (s.gs g).size pool).gs g).pc = (s.gs g).pc := if_pos rfl
    rw [hpc] at hnext
    have hgs := hin.gs_eq
    rw [← heq] at hgs
    unfold MultiGoroutine.Gets
    rw [hgs]
    simp only [Machine.apply, Machine.setG, Function.update_self]
    rcases hw with hw | ⟨hidle, -⟩
    · rcases Pc.wants_of_next hnext hw with ⟨hw', -⟩ | ⟨hidle, buf, hret, hlen⟩
      · exact Or.inl hw'
      · refine Or.inr ⟨hidle, buf, ?_, hlen⟩
        rw [hret]
        rfl
    · rw [hidle] at hnext
      cases hnext

/-! ## A call without interference -/

theorem setPool_setPool {mp : MultiSizeRingPool} {p p' : RingBufferPool}
    (hpool : mp.pools.lookup size = some pool) (hp : p.toRing = pool.toRing)
    (hpool' : (mp.setPool hpool p hp).pools.lookup size = some p) (hp' : p'.toRing = p.toRing) :
    (mp.setPool hpool p hp).setPool hpool' p' hp' = mp.setPool hpool p' (hp'.trans hp) := by
  unfold MultiSizeRingPool.setPool
  simp only [AList.insert_insert]

theorem lookup_leave {hpool : s.pool.pools.lookup size = some pool} {m : Machine}
    {hring : m.pool.toRing = pool.toRing} :
    (s.leave g hpool m hring).pool.pools.lookup size = some m.pool := AList.lookup_insert _

/-- A step in a pool that `g` has left before. -/
theorem leave_tick {hpool : s.pool.pools.lookup size = some pool} {m m' : Machine}
    {hring : m.pool.toRing = pool.toRing} (hframe : ∀ k, k ≠ g → m.gs k = (s.gs k).view size)
    (hstep : m.step (.tick g) = some m') :
    (s.leave g hpool m hring).step (.tick g) =
      some (s.leave g hpool m' ((Machine.step_toRing hstep).trans hring)) := by
  have hsize : ((s.leave g hpool m hring).gs g).size = size := by
    show (Function.update s.gs g _ g).size = size
    rw [Function.update_self]
  have hview : ((s.leave g hpool m hring).view size m.pool).step (.tick g) = some m' := by
    rw [view_leave hframe]
    exact hstep
  show (s.leave g hpool m hring).inPool g _ (.tick g) = _
  rw [hsize, inPool_of_step g lookup_leave hview]
  unfold leave
  simp only [Function.update_idem]
  exact congrArg (fun mp => some (MultiMachine.mk mp m'.heap _))
    (setPool_setPool hpool hring (AList.lookup_insert _) (Machine.step_toRing hstep))

theorem run_leave (hpool : s.pool.pools.lookup size = some pool) {m m' : Machine}
    (hring : m.pool.toRing = pool.toRing) (hframe : ∀ k, k ≠ g → m.gs k = (s.gs k).view size)
    {n : Nat} (hrun : run Machine.step m (List.replicate n (.tick g)) = some m') :
    ∃ hring', run step (s.leave g hpool m hring) (List.replicate n (.tick g)) =
      some (s.leave g hpool m' hring') := by
  induction n generalizing m with
  | zero =>
    cases hrun
    exact ⟨hring, rfl⟩
  | succ n ih =>
    rw [List.replicate_succ] at hrun ⊢
    obtain ⟨m₁, hm₁, hrest⟩ := run_cons_eq_some.mp hrun
    obtain ⟨hring', hrun'⟩ := ih ((Machine.step_toRing hm₁).trans hring)
      (fun k hk => (machine_step_frame (a := .tick g) rfl nofun hm₁ hk).trans (hframe k hk)) hrest
    exact ⟨hring', run_cons_eq_some.mpr ⟨_, leave_tick hframe hm₁, hrun'⟩⟩

end MultiMachine

/-- `findPool` is the choice that the loop of `Alloc` makes. -/
theorem MultiSizeRingPool.allocFrom_cases (mp : MultiSizeRingPool) (h : Heap) (n : Int)
    (sizes : List Int) :
    (findPool mp.pools n sizes = none ∧
      mp.allocFrom h n sizes = ((h.make n.toNat).1, mp, (h.make n.toNat).2)) ∨
    ∃ size pool, ∃ hpool : mp.pools.lookup size = some pool,
      findPool mp.pools n sizes = some size ∧
      mp.allocFrom h n sizes = ((pool.alloc h n).1,
        mp.setPool hpool (pool.alloc h n).2.1 (pool.alloc_toRing h n), (pool.alloc h n).2.2) := by
  induction sizes with
  | nil => exact Or.inl ⟨rfl, rfl⟩
  | cons size rest ih =>
    have hfind : findPool mp.pools n (size :: rest) =
        if size ≥ n ∧ size ∈ mp.pools then some size else findPool mp.pools n rest := rfl
    unfold allocFrom
    split
    · next hle =>
      split
      · next pool hpool =>
        have hmem : size ∈ mp.pools := AList.lookup_isSome.mp (by rw [hpool]; rfl)
        rw [if_pos ⟨hle, hmem⟩] at hfind
        exact Or.inr ⟨size, pool, hpool, hfind, rfl⟩
      · next hnone =>
        rw [if_neg fun hc => AList.lookup_eq_none.mp hnone hc.2] at hfind
        rw [hfind]
        exact ih
    · next hlt =>
      rw [if_neg fun hc => hlt hc.1] at hfind
      rw [hfind]
      exact ih

namespace MultiMachine

/-- **`Alloc` without interference is the `alloc` of the sequential model.** -/
theorem run_alloc_of_sizes (s : MultiMachine) (g : Nat) (n : Int) (hidle : (s.gs g).pc = .idle) :
    ∃ k s', run step s (.alloc g n :: List.replicate k (.tick g)) = some s' ∧
      s'.pool = (s.pool.alloc s.heap n).2.1 ∧ s'.heap = (s.pool.alloc s.heap n).2.2 ∧
      (s'.gs g).toGoroutine =
        { pc := .idle, held := (s.pool.alloc s.heap n).1 :: (s.gs g).held } ∧
      ∀ k, k ≠ g → s'.gs k = s.gs k := by
  unfold MultiSizeRingPool.alloc
  rcases s.pool.allocFrom_cases s.heap n s.pool.sizes with
    ⟨hfound, heq⟩ | ⟨size, pool, hpool, hfound, heq⟩ <;> rw [heq]
  · refine ⟨0, { s with heap := (s.heap.make n.toNat).2 }.setHeld g
      ((s.heap.make n.toNat).1 :: (s.gs g).held), ?_, rfl, rfl, ?_,
      fun k hk => Function.update_of_ne hk ..⟩
    · rw [List.replicate_zero, run_cons]
      simp only [step, hidle, hfound, Option.bind_some, run_nil]
    · show (Function.update s.gs g _ g).toGoroutine = _
      rw [Function.update_self, hidle]
  · have hview : ((s.view size pool).gs g).pc = .idle := by
      show (if (s.gs g).size = size then (s.gs g).pc else .idle) = _
      rw [hidle, ite_self]
    obtain ⟨k, hrun⟩ := Machine.run_alloc (s.view size pool) g n hview
    obtain ⟨m, hm, hrest⟩ := run_cons_eq_some.mp hrun
    have hframe : ∀ j, j ≠ g → m.gs j = (s.gs j).view size :=
      fun j hj => machine_step_frame (a := .alloc g n) rfl nofun hm hj
    obtain ⟨hring, hrun'⟩ := run_leave hpool (toRing_of_view_step hm) hframe hrest
    refine ⟨k, s.leave g hpool _ hring, ?_, rfl, rfl, ?_, fun j hj => Function.update_of_ne hj ..⟩
    · refine run_cons_eq_some.mpr ⟨_, ?_, hrun'⟩
      simp only [step, hidle, hfound]
      exact inPool_of_step g hpool hm
    · show (Function.update s.gs g _ g).toGoroutine = _
      rw [Function.update_self]
      show Function.update (s.view size pool).gs g _ g = _
      rw [Function.update_self]
      rfl

end MultiMachine

end FabricaNet.Ringpool
