import FabricaNet.Lib.Run
import FabricaNet.Frame.Codec
import FabricaNet.Ringpool.Config

/-!
# Pool initialisation

The variables `once` and `pool` of a frame package, from `init` on, under any sequence of calls of
the package's `Init…RingPool` and of uses of the pool by its codecs.

`pool` is an interface. `pool, err = ringpool.NewMultiSizeRingPool(…)` assigns both results before
the error is looked at, so a map that is refused leaves a nil `*MultiSizeRingPool` in the interface;
`Alloc` on it dereferences nil. The function then ends in `return nil`, whatever has happened.

The calls keep what they promise exactly when all of them give the same valid map
(`eachStep_honest_iff`).
-/

namespace FabricaNet.Frame

open Go Lib Ringpool

/-- The variables of a frame package, with the heap. -/
structure Package where
  /-- the function passed to `once.Do` has been called -/
  once : Bool
  /-- `none` is a nil `*MultiSizeRingPool` -/
  pool : Option MultiSizeRingPool
  heap : Heap

/-- `init`. It would panic on an error of `Default`, which has none. -/
def Package.init (pick : Int → Nat → Option Nat) (heap : Heap) : Package :=
  match hnew : newMultiSizeRingPool defaultMap pick heap with
  | .ok (mp, heap') => { once := false, pool := some mp, heap := heap' }
  | .error e => absurd hnew (newMultiSizeRingPool_ne_error validMap_defaultMap pick heap e)

/-- The body of the three functions: the error they return, and the package after the call. -/
def initRingPool (m : SizeCapacityMap) (pick : Int → Nat → Option Nat) (p : Package) :
    Option Err × Package :=
  if p.once then (none, p)
  else
    match newMultiSizeRingPool m pick p.heap with
    | .ok (mp, heap) => (none, { once := true, pool := some mp, heap := heap })
    -- `return nil` sets the named result `err`
    | .error _ => (none, { p with once := true, pool := none })

/-- `InitTcpRingPool`. -/
def initTcpRingPool := initRingPool

/-- `InitKcpRingPool`. -/
def initKcpRingPool := initRingPool

/-- `InitWebSocketRingPool`. -/
def initWebSocketRingPool := initRingPool

/-- `MOBAPoolConfig`. -/
def mobaPoolConfig : SizeCapacityMap where
  entries := [⟨32, 16384⟩, ⟨64, 8192⟩, ⟨128, 8192⟩, ⟨256, 4096⟩, ⟨512, 4096⟩, ⟨1024, 2048⟩,
    ⟨2048, 1024⟩, ⟨4096, 512⟩, ⟨8192, 256⟩]
  nodupKeys := by
    unfold List.NodupKeys
    decide

/-- `InitMOBARingPool`. -/
def initMOBARingPool (pick : Int → Nat → Option Nat) (p : Package) : Option Err × Package :=
  initKcpRingPool mobaPoolConfig pick p

/-- The frame packages. -/
inductive FramePackage where
  | tcp
  | kcp
  | webSocket
deriving DecidableEq, Repr

/-- The `Init…RingPool` of a package. -/
def FramePackage.initRingPool :
    FramePackage → SizeCapacityMap → (Int → Nat → Option Nat) → Package → Option Err × Package
  | .tcp => initTcpRingPool
  | .kcp => initKcpRingPool
  | .webSocket => initWebSocketRingPool

inductive PackageAct where
  /-- a call of the package's `Init…RingPool` -/
  | init (m : SizeCapacityMap) (pick : Int → Nat → Option Nat)
  /-- the call of `pool.Alloc` in a `Decode` of a valid frame -/
  | alloc (packLen : Int)
  /-- a call of the `free` that a `Decode` has returned -/
  | free (buf : Slice)

namespace Package

/-- A method call on the pool; on a nil pool the caller panics and the package stays as it is. -/
def use (p : Package) (f : MultiSizeRingPool → Heap → MultiSizeRingPool × Heap) : Package :=
  match p.pool with
  | some mp => { p with pool := some (f mp p.heap).1, heap := (f mp p.heap).2 }
  | none => p

def step (pkg : FramePackage) (p : Package) : PackageAct → Option Package
  | .init m pick => some (pkg.initRingPool m pick p).2
  | .alloc packLen => some (p.use fun mp heap => (mp.alloc heap packLen).2)
  | .free buf => some (p.use fun mp heap => mp.free heap buf)

/-- The pool in effect was built from the map. -/
def BuiltFrom (p : Package) (m : SizeCapacityMap) : Prop :=
  ∃ mp, p.pool = some mp ∧ Configured mp m

/--
A call returns nil only if the pool in effect is the one of its map; a call with a map that is not
valid returns an error and leaves the pool; no method is called on a nil pool.
-/
def Honest (pkg : FramePackage) (p : Package) (a : PackageAct) (p' : Package) : Prop :=
  match a with
  | .init m pick =>
    ((pkg.initRingPool m pick p).1 = none → p'.BuiltFrom m) ∧
      (¬ValidMap m → (pkg.initRingPool m pick p).1 ≠ none ∧ p'.pool = p.pool)
  | .alloc _ | .free _ => p.pool ≠ none

/-- The maps of the calls. -/
def maps (acts : List PackageAct) : List SizeCapacityMap :=
  acts.filterMap fun
    | .init m _ => some m
    | _ => none

theorem maps_init (m : SizeCapacityMap) (pick : Int → Nat → Option Nat) (acts : List PackageAct) :
    maps (.init m pick :: acts) = m :: maps acts := rfl

/-! ## One call -/

theorem initRingPool_eq (pkg : FramePackage) : pkg.initRingPool = Frame.initRingPool := by
  cases pkg <;> rfl

variable {pkg : FramePackage} {p : Package} {m m₀ : SizeCapacityMap}
variable {pick : Int → Nat → Option Nat} {acts : List PackageAct}

theorem initRingPool_of_once (h : p.once = true) : Frame.initRingPool m pick p = (none, p) :=
  if_pos h

theorem initRingPool_of_valid (h : p.once = false) (hm : ValidMap m)
    (pick : Int → Nat → Option Nat) :
    ∃ mp heap, Frame.initRingPool m pick p =
      (none, { once := true, pool := some mp, heap := heap }) ∧ Configured mp m := by
  obtain ⟨mp, heap, hnew, hconf⟩ := newMultiSizeRingPool_of_valid hm pick p.heap
  refine ⟨mp, heap, ?_, hconf⟩
  unfold Frame.initRingPool
  rw [if_neg (by rw [h]; decide), hnew]

theorem initRingPool_of_not_valid (h : p.once = false) (hm : ¬ValidMap m)
    (pick : Int → Nat → Option Nat) :
    Frame.initRingPool m pick p = (none, { p with once := true, pool := none }) := by
  obtain ⟨e, hnew⟩ := newMultiSizeRingPool_of_not_valid hm pick p.heap
  unfold Frame.initRingPool
  rw [if_neg (by rw [h]; decide), hnew]

/-- The functions never return an error. -/
theorem initRingPool_fst (p : Package) : (Frame.initRingPool m pick p).1 = none := by
  unfold Frame.initRingPool
  split
  · rfl
  · split <;> rfl

/-- So they are honest exactly when the map is valid and the pool in effect is its pool. -/
theorem honest_init_iff {p' : Package} :
    Honest pkg p (.init m pick) p' ↔ ValidMap m ∧ p'.BuiltFrom m := by
  show ((pkg.initRingPool m pick p).1 = none → _) ∧
    (¬ValidMap m → (pkg.initRingPool m pick p).1 ≠ none ∧ _) ↔ _
  rw [initRingPool_eq, initRingPool_fst]
  constructor
  · rintro ⟨hbuilt, hvalid⟩
    exact ⟨by_contra fun hm => (hvalid hm).1 rfl, hbuilt rfl⟩
  · rintro ⟨hm, hbuilt⟩
    exact ⟨fun _ => hbuilt, fun hbad => absurd hm hbad⟩

/-! ## Any sequence of calls -/

theorem BuiltFrom.use (h : p.BuiltFrom m) {f : MultiSizeRingPool → Heap → MultiSizeRingPool × Heap}
    (hf : ∀ mp heap, Configured mp m → Configured (f mp heap).1 m) : (p.use f).BuiltFrom m := by
  obtain ⟨mp, hpool, hconf⟩ := h
  refine ⟨(f mp p.heap).1, ?_, hf mp p.heap hconf⟩
  simp [Package.use, hpool]

theorem BuiltFrom.pool_ne_none (h : p.BuiltFrom m) : p.pool ≠ none := by
  obtain ⟨mp, hpool, -⟩ := h
  rw [hpool]
  nofun

theorem BuiltFrom.iff_lookup_eq (h : p.BuiltFrom m₀) :
    p.BuiltFrom m ↔ ∀ size, m.lookup size = m₀.lookup size := by
  obtain ⟨mp, hpool, hconf⟩ := h
  constructor
  · rintro ⟨mp', hpool', hconf'⟩ size
    cases hpool.symm.trans hpool'
    rw [← hconf size, ← hconf' size]
  · intro hsame
    exact ⟨mp, hpool, fun size => (hconf size).trans (hsame size).symm⟩

theorem use_once (f : MultiSizeRingPool → Heap → MultiSizeRingPool × Heap) :
    (p.use f).once = p.once := by
  unfold use
  split <;> rfl

/-- A codec finds the pool, and leaves it with its map. -/
theorem codec_step (pkg : FramePackage) (h : p.BuiltFrom m) {a : PackageAct} (ha : maps [a] = []) :
    ∃ p', step pkg p a = some p' ∧ Honest pkg p a p' ∧ p'.once = p.once ∧ p'.BuiltFrom m := by
  cases a with
  | init m' pick => cases ha
  | alloc packLen =>
    refine ⟨_, rfl, h.pool_ne_none, use_once _, h.use fun mp heap hconf => ?_⟩
    exact hconf.alloc heap packLen
  | free buf =>
    refine ⟨_, rfl, h.pool_ne_none, use_once _, h.use fun mp heap hconf => ?_⟩
    exact hconf.free heap buf

/-- After the first call nothing changes: later ones are honest when they give its map again. -/
theorem eachStep_honest_of_once (honce : p.once = true) (hbuilt : p.BuiltFrom m₀) :
    EachStep (step pkg) (Honest pkg) p acts ↔
      ∀ m ∈ maps acts, ValidMap m ∧ ∀ size, m.lookup size = m₀.lookup size := by
  induction acts generalizing p with
  | nil => exact iff_of_true trivial nofun
  | cons a acts ih =>
    have hcodec := codec_step pkg hbuilt (a := a)
    cases a with
    | init m pick =>
      have hstep : step pkg p (.init m pick) = some p := by
        rw [step, initRingPool_eq, initRingPool_of_once honce]
      rw [eachStep_cons_iff hstep, honest_init_iff, hbuilt.iff_lookup_eq, ih honce hbuilt,
        maps_init, List.forall_mem_cons]
    | alloc _ | free _ =>
      obtain ⟨p', hstep, hhonest, honce', hbuilt'⟩ := hcodec rfl
      rw [eachStep_cons_iff hstep, and_iff_right hhonest]
      exact ih (honce'.trans honce) hbuilt'

/-- Every two maps are the same as functions. -/
def Agree (ms : List SizeCapacityMap) : Prop :=
  ∀ m ∈ ms, ∀ m' ∈ ms, ∀ size, m.lookup size = m'.lookup size

theorem valid_and_agree_cons {ms : List SizeCapacityMap} (hm : ValidMap m) :
    (∀ m' ∈ m :: ms, ValidMap m') ∧ Agree (m :: ms) ↔
      ∀ m' ∈ ms, ValidMap m' ∧ ∀ size, m'.lookup size = m.lookup size := by
  constructor
  · rintro ⟨hvalid, hagree⟩ m' hm'
    exact ⟨hvalid m' (List.mem_cons_of_mem _ hm'),
      hagree m' (List.mem_cons_of_mem _ hm') m (List.mem_cons_self ..)⟩
  · intro h
    have hsame : ∀ m' ∈ m :: ms, ∀ size, m'.lookup size = m.lookup size := by
      intro m' hm' size
      rcases List.mem_cons.mp hm' with rfl | hm'
      · rfl
      · exact (h m' hm').2 size
    refine ⟨fun m' hm' => ?_, fun m₁ h₁ m₂ h₂ size => ?_⟩
    · rcases List.mem_cons.mp hm' with rfl | hm'
      · exact hm
      · exact (h m' hm').1
    · exact (hsame m₁ h₁ size).trans (hsame m₂ h₂ size).symm

/-- Before the first call the codecs use the pool of `Default`. -/
theorem eachStep_honest_of_not_once (honce : p.once = false) (hbuilt : p.BuiltFrom m₀) :
    EachStep (step pkg) (Honest pkg) p acts ↔
      (∀ m ∈ maps acts, ValidMap m) ∧ Agree (maps acts) := by
  induction acts generalizing p with
  | nil => exact iff_of_true trivial ⟨nofun, nofun⟩
  | cons a acts ih =>
    have hcodec := codec_step pkg hbuilt (a := a)
    cases a with
    | init m pick =>
      by_cases hm : ValidMap m
      · obtain ⟨mp, heap, hinit, hconf⟩ := initRingPool_of_valid honce hm pick
        have hstep : step pkg p (.init m pick) =
            some { once := true, pool := some mp, heap := heap } := by
          rw [step, initRingPool_eq, hinit]
        have hbuilt' : BuiltFrom { once := true, pool := some mp, heap := heap } m :=
          ⟨mp, rfl, hconf⟩
        rw [eachStep_cons_iff hstep, honest_init_iff, eachStep_honest_of_once rfl hbuilt',
          and_iff_right ⟨hm, hbuilt'⟩]
        exact (valid_and_agree_cons hm).symm
      · refine iff_of_false (fun h => ?_) fun h => hm (h.1 m (List.mem_cons_self ..))
        exact hm (honest_init_iff.mp (h _ rfl).1).1
    | alloc _ | free _ =>
      obtain ⟨p', hstep, hhonest, honce', hbuilt'⟩ := hcodec rfl
      rw [eachStep_cons_iff hstep, and_iff_right hhonest]
      exact ih (honce'.trans honce) hbuilt'

theorem init_spec (pick : Int → Nat → Option Nat) (heap : Heap) :
    (init pick heap).once = false ∧ (init pick heap).BuiltFrom defaultMap := by
  obtain ⟨mp, heap', hok, hconf⟩ := newMultiSizeRingPool_of_valid validMap_defaultMap pick heap
  unfold init
  split
  · next mp' heap₁ hok' =>
    cases hok.symm.trans hok'
    exact ⟨rfl, mp, rfl, hconf⟩
  · next e herr =>
    rw [hok] at herr
    cases herr

/--
**The calls of a package's `Init…RingPool` keep what they promise exactly when every one of them is
given a valid map, and all of them the same.**
-/
theorem eachStep_honest_iff (pkg : FramePackage) (pick : Int → Nat → Option Nat) (heap : Heap)
    (acts : List PackageAct) :
    EachStep (step pkg) (Honest pkg) (init pick heap) acts ↔
      (∀ m ∈ maps acts, ValidMap m) ∧ Agree (maps acts) :=
  eachStep_honest_of_not_once (init_spec pick heap).1 (init_spec pick heap).2

/-- The map that `InitMOBARingPool` passes is a valid one. -/
theorem validMap_mobaPoolConfig : ValidMap mobaPoolConfig := by decide

/--
`InitTcpRingPool(map[int]uint64{64: 3})`: the call returns nil and leaves a nil pool, and the next
`Decode` of a valid frame calls `Alloc` on it.
-/
theorem init_refused_returns_nil :
    let m : SizeCapacityMap := AList.singleton 64 3
    let p := init (fun _ _ => none) { next := 0, mem := fun _ => [] }
    (initTcpRingPool m (fun _ _ => none) p).1 = none ∧
      (initTcpRingPool m (fun _ _ => none) p).2.pool = none ∧
      ¬EachStep (step .tcp) (Honest .tcp) p [.init m fun _ _ => none, .alloc 1] := by
  intro m p
  have hm : ¬ValidMap m := by decide
  have honce : p.once = false := (init_spec ..).1
  have hinit := initRingPool_of_not_valid honce hm fun _ _ => none
  refine ⟨initRingPool_fst p, by rw [initTcpRingPool, hinit], fun h => ?_⟩
  exact hm (honest_init_iff.mp (h _ rfl).1).1

end Package

end FabricaNet.Frame
