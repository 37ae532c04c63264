import FabricaNet.Ringpool.MultiAtomic

/-!
# What `Alloc` returns is zero, under every interleaving

`FabricaNet/Ringpool/Zeroed.lean` says so of calls that are made one after the other. Here the calls
interleave: `Free` clears a buffer in one step and puts it on a shelf in a later one, and in between
other goroutines run. The buffer is in the hands of the call then (`Spot.inFree`), so nobody else
touches it, and it arrives on the shelf as it was left (`Clean`).
-/

namespace FabricaNet.Ringpool

open Go Lib

/-- What a goroutine knows of the buffer in its hands, or of the size it asks for. -/
def Pc.Clean (bufferSize : Nat) (h : Heap) : Pc → Prop
  | .freeClear buf | .putClear buf => buf.cap = bufferSize
  | .freeStore buf | .putFallback buf => h.mem buf.ptr = List.replicate bufferSize 0
  | .allocHead size | .allocTail size _ | .allocCas size _ | .allocSlot size _ =>
    size ≤ bufferSize
  | .allocFallback size | .allocGet size => size ≤ bufferSize
  | .idle | .freeTail => True

theorem Pc.Clean.congr {bufferSize : Nat} {h h' : Heap} {pc : Pc} (hc : pc.Clean bufferSize h)
    (hmem : ∀ a ∈ pc.carried, h'.mem a = h.mem a) : pc.Clean bufferSize h' := by
  cases pc with
  | freeStore buf | putFallback buf => exact (hmem buf.ptr (Multiset.mem_singleton_self _)).trans hc
  | _ => exact hc

namespace Machine

/-- What is on a shelf is zero, and so is what `Free` has cleared. -/
structure Clean (m : Machine) : Prop where
  shelf : ∀ k, ∀ a ∈ m.pool.shelf k, m.heap.mem a = List.replicate m.pool.bufferSize 0
  pc : ∀ g, (m.gs g).pc.Clean m.pool.bufferSize m.heap

/-- A buffer that comes to a goroutine is zero over its length. -/
def ReturnsZero (gs gs' : Nat → List Slice) (heap : Heap) : Prop :=
  ∀ g b, gs' g = b :: gs g → heap.read b = List.replicate b.len 0

variable {m m' : Machine} {g : Nat}

/-- Steps elsewhere that leave the bytes of this pool's buffers alone. -/
theorem Clean.congr (h : m.Clean) (hring : m'.pool.toRing = m.pool.toRing)
    (hshelf : ∀ k, ∀ a ∈ m'.pool.shelf k, a ∈ m.pool.shelf k ∧ m'.heap.mem a = m.heap.mem a)
    (hpc : ∀ g, (m'.gs g).pc = (m.gs g).pc)
    (hmem : ∀ g, ∀ a ∈ (m.gs g).pc.carried, m'.heap.mem a = m.heap.mem a) : m'.Clean := by
  have hsize : m'.pool.bufferSize = m.pool.bufferSize := congrArg Ring.bufferSize hring
  refine ⟨fun k a ha => ?_, fun g => ?_⟩
  · obtain ⟨hold, hsame⟩ := hshelf k a ha
    rw [hsame, hsize]
    exact h.shelf k a hold
  · rw [hpc, hsize]
    exact (h.pc g).congr (hmem g)

theorem returnsZero_of_length {gs gs' : Nat → List Slice} {heap : Heap}
    (h : ∀ g, (gs' g).length ≤ (gs g).length) : ReturnsZero gs gs' heap := by
  intro g b hb
  have hle := h g
  rw [hb, List.length_cons] at hle
  omega

/-- What comes to a shelf in a step was there before, or `Free` puts it there. -/
theorem mem_shelf_of_next {pc : Pc} {p : RingBufferPool} {h : Heap} {o : Outcome}
    (hnext : pc.next p h = some o) {k : Shelf} {a : Nat} (ha : a ∈ o.pool.shelf k) :
    a ∈ p.shelf k ∨ ∃ buf, a = buf.ptr ∧ (pc = .freeStore buf ∨ pc = .putFallback buf) := by
  cases pc with
  | idle => cases hnext
  | allocTail size head | allocCas size head =>
    simp only [Pc.next] at hnext
    split at hnext <;> cases hnext <;> cases k <;> exact Or.inl ha
  | allocSlot size head =>
    simp only [Pc.next] at hnext
    split at hnext
    · cases hnext
      cases k with
      | fallback => exact Or.inl ha
      | slot i =>
        change a ∈ (p.setSlot (p.slotOf head) 1).slotOwn i at ha
        by_cases hi : i = p.slotOf head
        · rw [hi, RingBufferPool.slotOwn_setSlot_self] at ha
          exact absurd ha (Multiset.notMem_zero a)
        · rw [RingBufferPool.slotOwn_setSlot_ne 1 hi] at ha
          exact Or.inl ha
    · cases hnext
      cases k <;> exact Or.inl ha
  | allocGet size =>
    left
    unfold Pc.next at hnext
    rcases p.getFallback_cases h with ⟨i, buf, pool, hbuf, hitems, heq⟩ | ⟨pool, hitems, heq⟩
    all_goals
      simp only [heq, Option.some.injEq] at hnext
      subst hnext
    · cases k with
      | slot i => exact ha
      | fallback =>
        change a ∈ addrs pool.items at ha
        show a ∈ addrs p.fallbackPool.items
        rw [addrs_eraseIdx hbuf, ← hitems]
        exact Multiset.mem_cons_of_mem ha
    · cases k with
      | slot i => exact ha
      | fallback =>
        change a ∈ addrs pool.items at ha
        rwa [hitems] at ha
  | freeStore buf =>
    cases hnext
    change a ∈ (p.releaseSlot buf).shelf k at ha
    rcases p.releaseSlot_cases buf with heq | ⟨i, hptr, heq⟩ <;> rw [heq] at ha
    · exact Or.inl ha
    · cases k with
      | fallback => exact Or.inl ha
      | slot j =>
        change a ∈ (p.setSlot i 0).slotOwn j at ha
        by_cases hj : j = i
        · rw [hj, RingBufferPool.slotOwn_setSlot_self] at ha
          exact Or.inr ⟨buf, (Multiset.mem_singleton.mp ha).trans hptr, Or.inl rfl⟩
        · rw [RingBufferPool.slotOwn_setSlot_ne 0 hj] at ha
          exact Or.inl ha
  | putFallback buf =>
    cases hnext
    cases k with
    | slot i => exact Or.inl ha
    | fallback =>
      change a ∈ buf.ptr ::ₘ addrs p.fallbackPool.items at ha
      rcases Multiset.mem_cons.mp ha with hptr | ha
      · exact Or.inr ⟨buf, hptr, Or.inr rfl⟩
      · exact Or.inl ha
  | _ => cases hnext; cases k <;> exact Or.inl ha

/-- Where the goroutine is after a step, it knows what it has to know. -/
theorem clean_of_next {pc : Pc} {p : RingBufferPool} {h : Heap} {o : Outcome}
    (hnext : pc.next p h = some o) (hc : pc.Clean p.bufferSize h) :
    o.pc.Clean p.bufferSize o.heap := by
  cases pc with
  | idle => cases hnext
  | allocTail size head | allocCas size head =>
    simp only [Pc.next] at hnext
    split at hnext <;> cases hnext <;> exact hc
  | allocSlot size head =>
    simp only [Pc.next] at hnext
    split at hnext <;> cases hnext
    · trivial
    · exact hc
  | freeClear buf | putClear buf =>
    cases hnext
    show Function.update h.mem buf.ptr _ buf.ptr = _
    rw [Function.update_self, show buf.cap = p.bufferSize from hc]
  | allocHead size | allocFallback size => cases hnext; exact hc
  | _ => cases hnext; trivial

/-- A buffer that `Alloc` returns is zero. -/
theorem returned_of_next {pc : Pc} {p : RingBufferPool} {h : Heap} {o : Outcome}
    (hnext : pc.next p h = some o) (hc : pc.Clean p.bufferSize h)
    (hshelf : ∀ k, ∀ a ∈ p.shelf k, h.mem a = List.replicate p.bufferSize 0) {b : Slice}
    (hb : b ∈ o.returned) : o.heap.read b = List.replicate b.len 0 := by
  have hread : ∀ {h' : Heap}, h'.mem b.ptr = List.replicate p.bufferSize 0 →
      b.len ≤ p.bufferSize → h'.read b = List.replicate b.len 0 := by
    intro h' hmem hlen
    rw [Heap.read, hmem, List.take_replicate, Nat.min_eq_left hlen]
  cases pc with
  | idle => cases hnext
  | allocTail size head | allocCas size head =>
    simp only [Pc.next] at hnext
    split at hnext <;> cases hnext <;> cases hb
  | allocSlot size head =>
    simp only [Pc.next] at hnext
    split at hnext
    · next hfree =>
      cases hnext
      cases List.mem_singleton.mp hb
      refine hread (hshelf (.slot (p.slotOf head)) _ ?_) hc
      show _ ∈ p.slotOwn (p.slotOf head)
      rw [RingBufferPool.slotOwn_of_free hfree]
      exact Multiset.mem_singleton_self _
    · cases hnext
      cases hb
  | allocGet size =>
    unfold Pc.next at hnext
    rcases p.getFallback_cases h with ⟨i, buf, pool, hbuf, hitems, heq⟩ | ⟨pool, hitems, heq⟩
    all_goals
      simp only [heq, Option.some.injEq] at hnext
      subst hnext
      cases List.mem_singleton.mp hb
    · exact hread (hshelf .fallback buf.ptr (mem_addrs (List.mem_of_getElem? hbuf))) hc
    · exact hread (Function.update_self ..) hc
  | _ => cases hnext; cases hb

theorem clean_tick (hex : Exclusive m.live m.own) (h : m.Clean) {o : Outcome}
    (hnext : (m.gs g).pc.next m.pool m.heap = some o) :
    (m.apply g o).Clean ∧
      ReturnsZero (fun k => (m.gs k).held) (fun k => ((m.apply g o).gs k).held) o.heap := by
  have hsize : o.pool.bufferSize = m.pool.bufferSize :=
    congrArg Ring.bufferSize (Pc.next_toRing hnext)
  -- a buffer that is not in `g`'s hands keeps its bytes
  have hmem : ∀ {place a}, a ∈ m.own place → place ≠ .inFree g → o.heap.mem a = m.heap.mem a := by
    intro place a ha hplace
    refine mem_of_next hnext (hex.live_of_mem ha) fun hcarried => hplace ?_
    exact hex.unique ha (show a ∈ m.own (.inFree g) from hcarried)
  have hplace : ∀ {k a}, a ∈ m.pool.shelf k → ∃ place, a ∈ m.own place ∧ place ≠ .inFree g := by
    intro k a ha
    cases k with
    | slot i => exact ⟨.slot i, ha, nofun⟩
    | fallback => exact ⟨.fallback, ha, nofun⟩
  refine ⟨⟨fun k a ha => ?_, fun k => ?_⟩, fun k b hb => ?_⟩
  · show o.heap.mem a = List.replicate o.pool.bufferSize 0
    rw [hsize]
    rcases mem_shelf_of_next hnext ha with hold | ⟨buf, rfl, hpc⟩
    · obtain ⟨place, hown, hne⟩ := hplace hold
      rw [hmem hown hne]
      exact h.shelf k a hold
    · -- the buffer was cleared by an earlier step, and this one does not touch the heap
      have hclean := h.pc g
      rcases hpc with hpc | hpc <;> rw [hpc] at hclean hnext <;> cases hnext <;> exact hclean
  · show ((m.apply g o).gs k).pc.Clean o.pool.bufferSize o.heap
    rw [hsize]
    by_cases hk : k = g
    · subst hk
      rw [show ((m.apply k o).gs k).pc = o.pc by simp [apply, setG]]
      exact clean_of_next hnext (h.pc k)
    · rw [apply_of_ne hk]
      refine (h.pc k).congr fun a ha => hmem (show a ∈ m.own (.inFree k) from ha) fun he => hk ?_
      cases he
      rfl
  · by_cases hk : k = g
    · subst hk
      have hheld : ((m.apply k o).gs k).held = o.returned ++ (m.gs k).held := by
        simp [apply, setG]
      change ((m.apply k o).gs k).held = b :: (m.gs k).held at hb
      rw [hheld] at hb
      refine returned_of_next hnext (h.pc k) h.shelf ?_
      have hone : o.returned = [b] :=
        List.append_cancel_right (hb.trans (List.singleton_append).symm)
      rw [hone]
      exact List.mem_singleton_self b
    · simp only [apply_of_ne hk] at hb
      exact absurd (congrArg List.length hb) (by simp)

/-- The buffers of a pool are live. -/
theorem lt_next_of_shelf (hex : Exclusive m.live m.own) {k : Shelf} {a : Nat}
    (ha : a ∈ m.pool.shelf k) : a < m.heap.next := by
  cases k with
  | slot i => exact hex.live_of_mem (i := .slot i) ha
  | fallback => exact hex.live_of_mem (i := .fallback) ha

/-- A new block goes to a goroutine that is in no call. -/
theorem clean_make (hex : Exclusive m.live m.own) (h : m.Clean) (hidle : (m.gs g).pc = .idle)
    (n : Nat) :
    Clean ⟨{ m.pool with allocCount := m.pool.allocCount + 1 }, (m.heap.make n).2,
        Function.update m.gs g { held := (m.heap.make n).1 :: (m.gs g).held }⟩ ∧
      ReturnsZero (fun k => (m.gs k).held) (fun k =>
        (Function.update m.gs g { held := (m.heap.make n).1 :: (m.gs g).held } k).held)
        (m.heap.make n).2 := by
  have hold : ∀ a < m.heap.next, (m.heap.make n).2.mem a = m.heap.mem a :=
    fun a ha => Function.update_of_ne (Nat.ne_of_lt ha) ..
  refine ⟨h.congr rfl (fun k a ha => ?_) (fun k => ?_) fun k a ha => ?_, fun k b hb => ?_⟩
  · have ha' : a ∈ m.pool.shelf k := by cases k <;> exact ha
    exact ⟨ha', hold a (lt_next_of_shelf hex ha')⟩
  · show (Function.update m.gs g _ k).pc = _
    by_cases hk : k = g
    · subst hk
      rw [Function.update_self, hidle]
    · rw [Function.update_of_ne hk]
  · exact hold a (hex.live_of_mem (i := .inFree k) ha)
  · by_cases hk : k = g
    · subst hk
      simp only [Function.update_self, List.cons.injEq, and_true] at hb
      subst hb
      show (Function.update m.heap.mem m.heap.next _ m.heap.next).take n = _
      rw [Function.update_self, List.take_replicate, Nat.min_self]
      rfl
    · simp only [Function.update_of_ne hk] at hb
      exact absurd (congrArg List.length hb) (by simp)

theorem clean_callAlloc (hex : Exclusive m.live m.own) (h : m.Clean)
    (hidle : (m.gs g).pc = .idle) (size : Int) :
    (m.callAlloc g size).Clean ∧ ReturnsZero (fun k => (m.gs k).held)
      (fun k => ((m.callAlloc g size).gs k).held) (m.callAlloc g size).heap := by
  unfold callAlloc
  simp only
  split
  · exact clean_make hex h hidle 0
  · split
    · exact clean_make hex h hidle size.toNat
    · next hsize =>
      refine ⟨⟨fun k a ha => h.shelf k a (by cases k <;> exact ha), fun k => ?_⟩,
        returnsZero_of_length fun k => ?_⟩
      · show (Function.update m.gs g _ k).pc.Clean m.pool.bufferSize m.heap
        by_cases hk : k = g
        · subst hk
          rw [Function.update_self]
          rw [gt_iff_lt, Int.not_lt] at hsize
          show size.toNat ≤ m.pool.bufferSize
          have hle : size ≤ (m.pool.bufferSize : Int) := hsize
          omega
        · rw [Function.update_of_ne hk]
          exact h.pc k
      · show (Function.update m.gs g _ k).held.length ≤ _
        by_cases hk : k = g
        · subst hk
          rw [Function.update_self]
        · rw [Function.update_of_ne hk]

theorem clean_callFree (h : m.Clean) (i : Nat) (buf : Slice) : (m.callFree g i buf).Clean := by
  refine ⟨fun k a ha => h.shelf k a (by cases k <;> exact ha), fun k => ?_⟩
  by_cases hk : k = g
  · subst hk
    rw [show ((m.callFree k i buf).gs k).pc = freePc m.pool.toRing buf by simp [callFree, setG]]
    show (freePc m.pool.toRing buf).Clean m.pool.bufferSize m.heap
    unfold freePc
    split
    · next hring =>
      by_contra hcap
      rw [Ring.isRingBuffer_of_cap hcap] at hring
      cases hring
    · split
      · next hcap => exact hcap
      · trivial
  · rw [show (m.callFree g i buf).gs k = m.gs k from setG_of_ne hk]
    exact h.pc k

end Machine

namespace MultiMachine

open Machine (ReturnsZero returnsZero_of_length)

variable {s s' : MultiMachine} {g : Nat} {size : Int} {pool pool' : RingBufferPool}
  {act : MultiAct}

/-- The buffers of every pool are zero, on the shelves and in the hands of `Free`. -/
def Clean (s : MultiMachine) : Prop :=
  ∀ size pool, s.pool.pools.lookup size = some pool → (s.view size pool).Clean

/-- `Alloc` returns zeros. -/
def AllocReturnsZero (s : MultiMachine) (_ : MultiAct) (s' : MultiMachine) : Prop :=
  ReturnsZero (fun g => (s.gs g).held) (fun g => (s'.gs g).held) s'.heap

theorem spot_of_shelf (hpool : s.pool.pools.lookup size = some pool) {k : Shelf} {x : Nat}
    (hx : x ∈ pool.shelf k) : x ∈ s.own (.shelf size k) := by
  show x ∈ multiOwn s.pool.pools [] (.shelf size k)
  rwa [multiOwn_of_lookup hpool]

/-- A pool that a step does not work in, and whose buffers the step does not touch. -/
theorem clean_view_of_untouched (hex : Exclusive s.live s.own) (h : Goes s act s')
    (hclean : (s.view size pool).Clean) (hpool : s.pool.pools.lookup size = some pool)
    (hpc : ∀ k, ((s'.gs k).view size).pc = ((s.gs k).view size).pc)
    (htouch : ∀ n k, act.touches s = some (.inFree n k) → n = size →
      ((s.gs k).view size).pc.carried = 0) : (s'.view size pool).Clean := by
  refine hclean.congr rfl (fun k x hx => ⟨hx, ?_⟩) hpc fun k x hx => ?_
  · refine mem_of_goes hex h (spot_of_shelf hpool hx) fun he => ?_
    cases act <;> cases he
  · refine mem_of_goes hex h (k := .inFree size k) hx fun he => ?_
    change x ∈ ((s.gs k).view size).pc.carried at hx
    rw [htouch size k he rfl] at hx
    exact Multiset.notMem_zero x hx

/-- A step in one pool leaves the others as they are. -/
theorem InPool.view_pc_of_ne {a : Act} (h : InPool s g size a s' pool pool')
    (hg : (s.gs g).pc = .idle ∨ (s.gs g).size = size) {n : Int} (hn : n ≠ size) (k : Nat) :
    ((s'.gs k).view n).pc = ((s.gs k).view n).pc := by
  by_cases hk : k = g
  · subst hk
    have hidle : ((s.gs k).view n).pc = .idle := by
      unfold MultiGoroutine.view
      simp only
      split
      · next hx => exact hg.resolve_right fun he => hn (hx.symm.trans he)
      · rfl
    rw [hidle]
    exact if_neg fun he => hn (he.symm.trans h.size_eq)
  · rw [h.frame k hk]

/-- The pool that a step works in is clean, so all are. -/
theorem InPool.clean {a : Act} (h : InPool s g size a s' pool pool')
    (hg : (s.gs g).pc = .idle ∨ (s.gs g).size = size) (hex : Exclusive s.live s.own)
    (hgoes : Goes s act s') (hclean : s.Clean) (hview : (s'.view size pool').Clean)
    (htouch : ∀ n k, act.touches s = some (.inFree n k) → n = size) : s'.Clean := by
  intro n p hp
  by_cases hn : n = size
  · subst hn
    cases h.lookup'.symm.trans hp
    exact hview
  · rw [h.lookup_ne hn] at hp
    exact clean_view_of_untouched hex hgoes (hclean n p hp) hp (h.view_pc_of_ne hg hn)
      fun m k hm hmn => absurd (hmn.symm.trans (htouch m k hm)) hn

theorem view_setHeld (held : List Slice) (n : Int) (k : Nat) :
    (((s.setHeld g held).gs k).view n).pc = ((s.gs k).view n).pc := by
  show ((Function.update s.gs g _ k).view n).pc = _
  by_cases hk : k = g
  · subst hk
    rw [Function.update_self]
    rfl
  · rw [Function.update_of_ne hk]

/-- **Every step keeps the pools clean, and what `Alloc` returns is zero.** -/
theorem clean_of_goes (hex : Exclusive s.live s.own) (hclean : s.Clean) (h : Goes s act s') :
    AllocReturnsZero s act s' ∧ s'.Clean := by
  have hgoes := h
  cases h with
  | @alloc g n size s' pool pool' hidle hfound hin =>
    obtain ⟨hpc, heq⟩ := Machine.step_alloc hin.view_step
    obtain ⟨hview, hzero⟩ := Machine.clean_callAlloc (exclusive_view hex hin.lookup)
      (hclean size pool hin.lookup) hpc n
    rw [← heq] at hview hzero
    exact ⟨hzero, hin.clean (Or.inl hidle) hex hgoes hclean hview
      fun _ _ hk => by cases hk⟩
  | @tick g s' pool pool' hin =>
    obtain ⟨o, hnext, heq⟩ := Option.map_eq_some_iff.mp hin.view_step
    obtain ⟨hview, hzero⟩ := Machine.clean_tick (exclusive_view hex hin.lookup)
      (hclean _ pool hin.lookup) hnext
    rw [heq] at hview hzero
    refine ⟨?_, hin.clean (Or.inr rfl) hex hgoes hclean hview fun n k hk => ?_⟩
    · have hheap : o.heap = s'.heap := congrArg Machine.heap heq
      rw [hheap] at hzero
      exact hzero
    · cases hk
      rfl
  | @free g i buf s' pool pool' hidle hheld hin =>
    obtain ⟨-, b, -, heq⟩ := Machine.step_free hin.view_step
    have hview := Machine.clean_callFree (g := g) (hclean _ pool hin.lookup) i b
    rw [← heq] at hview
    refine ⟨returnsZero_of_length fun k => ?_,
      hin.clean (Or.inl hidle) hex hgoes hclean hview fun _ _ hk => by cases hk⟩
    show ((s'.view buf.cap pool').gs k).held.length ≤ _
    rw [heq]
    by_cases hk : k = g
    · subst hk
      simp only [Machine.callFree, Machine.setG, Function.update_self]
      exact List.length_eraseIdx_le ..
    · rw [show ((s.view buf.cap pool).callFree g i b).gs k = (s.view buf.cap pool).gs k from
        Machine.setG_of_ne hk]
      exact Nat.le_refl _
  | @make g n hidle hfound =>
    refine ⟨fun k b hb => ?_, fun size p hp => clean_view_of_untouched hex hgoes
      (hclean size p hp) hp (view_setHeld _ size) fun _ _ hk => by cases hk⟩
    by_cases hk : k = g
    · subst hk
      simp only [setHeld_held, List.cons.injEq, and_true] at hb
      subst hb
      show (Function.update s.heap.mem s.heap.next _ s.heap.next).take n.toNat = _
      rw [Function.update_self, List.take_replicate, Nat.min_self]
      rfl
    · simp only [setHeld, Function.update_of_ne hk] at hb
      exact absurd (congrArg List.length hb) (by simp)
  | @forget g i buf hidle hheld hnone =>
    refine ⟨returnsZero_of_length fun k => ?_, fun size p hp => clean_view_of_untouched hex hgoes
      (hclean size p hp) hp (view_setHeld _ size) fun _ _ hk => by cases hk⟩
    by_cases hk : k = g
    · subst hk
      simp only [setHeld_held]
      exact List.length_eraseIdx_le ..
    · simp only [setHeld, Function.update_of_ne hk]
      exact Nat.le_refl _
  | write hheld hfits =>
    exact ⟨returnsZero_of_length fun k => Nat.le_refl _, fun size p hp =>
      clean_view_of_untouched hex hgoes (hclean size p hp) hp (fun _ => rfl)
        fun _ _ hk => by cases hk⟩

theorem clean_init {m : AList fun _ : Int => UInt64} {pick : Int → Nat → Option Nat}
    {h heap : Heap} {mp : MultiSizeRingPool}
    (hnew : newMultiSizeRingPool m pick h = .ok (mp, heap)) : (init mp heap).Clean := by
  intro size pool hpool
  refine ⟨fun k a ha => ?_, fun g => ?_⟩
  · have hzero := (zeroed_new hnew).zero size k a (spot_of_shelf hpool ha)
    rw [← mp.bufferSize_eq size pool hpool, Int.toNat_natCast] at hzero
    exact hzero
  · show Pc.Clean _ _ (if (0 : Int) = size then .idle else .idle)
    rw [ite_self]
    trivial

/--
**No data leaks from one goroutine to another: under every interleaving of calls of `Alloc` and
`Free` and of writes, a buffer that `Alloc` returns is zero over its whole length.**
-/
theorem alloc_returns_zero_of_sizes {m : AList fun _ : Int => UInt64}
    {pick : Int → Nat → Option Nat} {h heap : Heap} {mp : MultiSizeRingPool}
    (hnew : newMultiSizeRingPool m pick h = .ok (mp, heap)) (acts : List MultiAct) :
    EachStep step AllocReturnsZero (init mp heap) acts := by
  refine eachStep_of_inv (I := fun s => Exclusive s.live s.own ∧ s.Clean)
    (fun s a s' hs hstep => ?_) ⟨exclusive_init hnew, clean_init hnew⟩
  have hgoes := goes_of_step hstep
  obtain ⟨hzero, hclean⟩ := clean_of_goes hs.1 hs.2 hgoes
  exact ⟨hzero, exclusive_of_goes hs.1 hgoes, hclean⟩

/--
One buffer of two bytes. A goroutine writes to it and frees it; another allocates while the first
is between clearing the buffer and releasing its slot, and again when it has released it.
-/
theorem alloc_returns_zero_two_goroutines :
    ∃ mp heap, newMultiSizeRingPool (AList.singleton (2 : Int) (1 : UInt64)) (fun _ _ => none)
        ⟨0, fun _ => []⟩ = .ok (mp, heap) ∧
      EachStep step AllocReturnsZero (init mp heap) ([.alloc 0 2] ++ [0, 0, 0, 0].map .tick ++
        [.write 0 0 0 [7, 7], .free 0 0, .alloc 1 2] ++ [0, 1, 1, 0, 1, 0, 1].map .tick ++
        [.alloc 1 2] ++ [1, 1, 1, 1].map .tick) := by
  have hnew : newMultiSizeRingPool (AList.singleton (2 : Int) (1 : UInt64)) (fun _ _ => none)
    ⟨0, fun _ => []⟩ = .ok (_, _) := rfl
  exact ⟨_, _, hnew, alloc_returns_zero_of_sizes hnew _⟩

end MultiMachine

end FabricaNet.Ringpool
