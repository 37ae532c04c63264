import FabricaNet.Go.Range
import FabricaNet.Xnet

/-!
# The worker registry

`internal/workermanager.go`. Workers live in `shardCount` buckets, chosen by a hash of the worker
id. The index `uidWidMap` from user ids to worker ids is a variable of the package, so every
manager of the process shares it; the operations take it as an argument and return it.

## Keys of the index

`sync.Map` compares keys of type `any` with their dynamic type. `Put` stores under `w.UID()`, an
`int64`, and `Del` deletes under `wid`, a `uint64`: `Key` keeps the two apart.

## Maps that are iterated

`Walk` calls its function with `Range`, so the order is an argument (`RangeOrder`). The function is
a closure, whose state `Walk` passes on from call to call.

## Reading the registry

Every lemma reads a manager through `worker`, the map from worker ids to workers that the buckets
hold together (`worker_putBucket`, `worker_delBucket`).
-/

namespace FabricaNet.Internal

open Go Xnet

/-- A `*Worker`. `ref` is the identity of the object, `id` the worker id. -/
structure Worker where
  ref : Nat
  id : UInt64
  session : Option Session
deriving DecidableEq, Repr

/-- `Worker.UID`. -/
def Worker.uid (w : Worker) : Int64 :=
  match w.session with
  | none => 0
  | some ss => ss.uid

/-- A key of a `sync.Map`: a value with its dynamic type. -/
inductive Key where
  | int64 (k : Int64)
  | uint64 (k : UInt64)
deriving DecidableEq, Repr

/-- The type of `uidWidMap`. -/
abbrev UidWidMap := SyncMap Key UInt64

/-! ## Buckets -/

/-- `wyhash`. -/
def wyhash (key : UInt64) : UInt64 :=
  let x := key
  let x := x ^^^ (x >>> 33)
  let x := x * 0xff51afd7ed558ccd
  let x := x ^^^ (x >>> 33)
  let x := x * 0xc4ceb9fe1a85ec53
  x ^^^ (x >>> 33)

/-- `getBucketKey`. -/
def getBucketKey (wid shardCount : UInt64) : UInt64 := wyhash wid &&& (shardCount - 1)

/-- The key is below the number of buckets, whether that number is a power of two or not. -/
theorem getBucketKey_lt (wid : UInt64) {shardCount : UInt64} (h : 0 < shardCount) :
    (getBucketKey wid shardCount).toNat < shardCount.toNat := by
  have hpos : 0 < shardCount.toNat := UInt64.lt_iff_toNat_lt.mp h
  have hsub : (shardCount - 1).toNat = shardCount.toNat - 1 :=
    UInt64.toNat_sub_of_le _ _ (UInt64.le_iff_toNat_le.mpr hpos)
  have hle : (getBucketKey wid shardCount).toNat ≤ (shardCount - 1).toNat := by
    unfold getBucketKey
    rw [UInt64.toNat_and]
    exact Nat.and_le_right
  omega

/-- `conf.Bucket`. A manager needs at least one bucket. -/
structure BucketConf where
  bucketSize : Int64
  bucketSize_pos : 0 < bucketSize

/-- `WorkerManager`. There are `shardCount` buckets, and at least one. -/
structure WorkerManager where
  shardCount : UInt64
  shardCount_pos : 0 < shardCount
  buckets : Vector (SyncMap UInt64 Worker) shardCount.toNat
  size : Int64

theorem toUInt64_pos {n : Int64} (h : 0 < n) : 0 < n.toUInt64 := by
  have hne : n.toUInt64 ≠ 0 := by
    intro he
    have h0 : n = 0 := by rw [← Int64.toInt64_toUInt64 n, he]; rfl
    rw [h0] at h
    exact absurd h (by decide)
  exact UInt64.pos_iff_ne_zero.mpr hne

/-- `newWorkerManager`. -/
def newWorkerManager (c : BucketConf) : WorkerManager where
  shardCount := c.bucketSize.toUInt64
  shardCount_pos := toUInt64_pos c.bucketSize_pos
  buckets := Vector.replicate _ SyncMap.empty
  size := 0

namespace WorkerManager

/-- The position of the bucket for a worker id. -/
def bucketIdx (m : WorkerManager) (wid : UInt64) : Fin m.shardCount.toNat :=
  ⟨(getBucketKey wid m.shardCount).toNat, getBucketKey_lt wid m.shardCount_pos⟩

/-- `getBucket`. -/
def getBucket (m : WorkerManager) (wid : UInt64) : SyncMap UInt64 Worker :=
  m.buckets[m.bucketIdx wid]

/-- The manager with one bucket replaced. -/
def setBucket (m : WorkerManager) (wid : UInt64) (b : SyncMap UInt64 Worker) : WorkerManager :=
  { m with buckets := m.buckets.set (m.bucketIdx wid) b (m.bucketIdx wid).isLt }

/-- `m.size.Add(delta)`. -/
def addSize (m : WorkerManager) (delta : Int64) : WorkerManager :=
  { m with size := m.size + delta }

/-- `Worker`: the worker registered under the id. -/
def worker (m : WorkerManager) (wid : UInt64) : Option Worker := (m.getBucket wid).load wid

/-- The first step of `Put`: `LoadOrStore` on the bucket. Returns the worker found there. -/
def putBucket (m : WorkerManager) (w : Worker) : Option Worker × WorkerManager :=
  let r := (m.getBucket w.id).loadOrStore w.id w
  (r.1, m.setBucket w.id r.2)

/-- The second step of `Del`: `Delete` on the bucket. -/
def delBucket (m : WorkerManager) (wid : UInt64) : WorkerManager :=
  m.setBucket wid ((m.getBucket wid).delete wid)

end WorkerManager

/-! ## Operations -/

/-- `uidWidMap.Store(w.UID(), w.WID())`. -/
def storeIndex (idx : UidWidMap) (w : Worker) : UidWidMap := idx.store (.int64 w.uid) w.id

/-- `uidWidMap.Delete(wid)`. The key is the worker id, not the user id. -/
def deleteIndex (idx : UidWidMap) (wid : UInt64) : UidWidMap := idx.delete (.uint64 wid)

/-- `Put`. -/
def put (idx : UidWidMap) (m : WorkerManager) (w : Worker) :
    Option Worker × UidWidMap × WorkerManager :=
  match m.putBucket w with
  | (some old, m') => (some old, idx, m')
  | (none, m') => (none, storeIndex idx w, m'.addSize 1)

/-- `Del`. -/
def del (idx : UidWidMap) (m : WorkerManager) (wid : UInt64) : UidWidMap × WorkerManager :=
  (deleteIndex idx wid, (m.delBucket wid).addSize (-1))

/-- `GetByUID`. -/
def getByUID (idx : UidWidMap) (m : WorkerManager) (uid : Int64) : Option Worker :=
  match idx.load (.int64 uid) with
  | none => none
  | some wid => m.worker wid

/-! ## Batch lookup -/

/-- The type of the result of `GetByUIDs`. -/
abbrev WorkerMap := AList fun _ : Int64 => Worker

/-- The first loop of `GetByUIDs`: the worker ids that the index has for the users. -/
def indexedWids (idx : UidWidMap) (uids : List Int64) : List UInt64 :=
  uids.filterMap fun uid => idx.load (.int64 uid)

namespace WorkerManager

/-- The body of the second loop of `GetByUIDs`: the id goes to the list for its bucket. -/
def addKey (m : WorkerManager) (bucketKeys : Vector (List UInt64) m.shardCount.toNat)
    (wid : UInt64) : Vector (List UInt64) m.shardCount.toNat :=
  let key := m.bucketIdx wid
  bucketKeys.set key (bucketKeys[key] ++ [wid]) key.isLt

/-- The second loop of `GetByUIDs`. -/
def groupKeys (m : WorkerManager) (wids : List UInt64) :
    Vector (List UInt64) m.shardCount.toNat :=
  wids.foldl m.addKey (Vector.replicate _ [])

/-- The body of the innermost loop of `GetByUIDs`. The key is the user of the worker found. -/
def addFound (bucket : SyncMap UInt64 Worker) (result : WorkerMap) (wid : UInt64) : WorkerMap :=
  match bucket.load wid with
  | some worker => result.insert worker.uid worker
  | none => result

/-- The third loop of `GetByUIDs`. -/
def collect (m : WorkerManager) (bucketKeys : Vector (List UInt64) m.shardCount.toNat) :
    WorkerMap :=
  (List.finRange m.shardCount.toNat).foldl (fun result key =>
    if bucketKeys[key].length = 0 then result
    else bucketKeys[key].foldl (addFound m.buckets[key]) result) ∅

end WorkerManager

/-- `GetByUIDs`. -/
def getByUIDs (idx : UidWidMap) (m : WorkerManager) (uids : List Int64) : WorkerMap :=
  m.collect (m.groupKeys (indexedWids idx uids))

/-! ## Walk -/

namespace WorkerManager

variable {σ : Type}

/--
The function that `Walk` passes to `Range`. The flag is the variable `continued` of `Walk`. The
type assertion on the value succeeds, since only `Put` stores into a bucket.
-/
def walkVisit (f : σ → Worker → σ × Bool) (st : σ × Bool) (_ : UInt64) (v : Worker) :
    (σ × Bool) × Bool :=
  let (s, continued) := f st.1 v
  ((s, continued), continued)

/-- The loop of `Walk`, from the `i`-th bucket on. -/
def walkBuckets (order : Nat → RangeOrder UInt64 Worker) (f : σ → Worker → σ × Bool) :
    Nat → List (SyncMap UInt64 Worker) → σ × Bool → σ × Bool
  | _, [], st => st
  | i, b :: bs, st =>
    let st := b.range (order i) (walkVisit f) st
    if !st.2 then st else walkBuckets order f (i + 1) bs st

/-- `Walk`. `order i` is the order for the `i`-th bucket, `s` the state of the function. -/
def walk (m : WorkerManager) (order : Nat → RangeOrder UInt64 Worker)
    (f : σ → Worker → σ × Bool) (s : σ) : σ :=
  (walkBuckets order f 0 m.buckets.toList (s, true)).1

end WorkerManager

/-! ## The registry as a map -/

namespace WorkerManager

theorem getBucket_setBucket_self (m : WorkerManager) (wid : UInt64)
    (b : SyncMap UInt64 Worker) : (m.setBucket wid b).getBucket wid = b :=
  Vector.getElem_set_self _

/-- Another id in the same bucket sees the new bucket, one in another bucket the old one. -/
theorem getBucket_setBucket (m : WorkerManager) (wid wid' : UInt64) (b : SyncMap UInt64 Worker) :
    (m.setBucket wid b).getBucket wid' =
      if m.bucketIdx wid = m.bucketIdx wid' then b else m.getBucket wid' := by
  unfold getBucket setBucket
  rw [Fin.getElem_fin, Vector.getElem_set]
  simp only [Fin.ext_iff]
  rfl

theorem worker_setBucket (m : WorkerManager) (wid wid' : UInt64) {b : SyncMap UInt64 Worker}
    (hb : ∀ k, k ≠ wid → b.load k = (m.getBucket wid).load k) :
    (m.setBucket wid b).worker wid' = if wid' = wid then b.load wid else m.worker wid' := by
  unfold worker
  by_cases h : wid' = wid
  · rw [if_pos h, h, getBucket_setBucket_self]
  · rw [if_neg h, getBucket_setBucket]
    split
    · next hidx =>
      rw [hb wid' h]
      simp only [getBucket, hidx]
    · rfl

theorem putBucket_fst (m : WorkerManager) (w : Worker) : (m.putBucket w).1 = m.worker w.id :=
  SyncMap.loadOrStore_fst ..

/-- `Put` writes under the worker's own id, and only if nothing is registered there. -/
theorem worker_putBucket (m : WorkerManager) (w : Worker) (wid : UInt64) :
    (m.putBucket w).2.worker wid =
      if wid = w.id then some ((m.worker w.id).getD w) else m.worker wid := by
  show (m.setBucket w.id _).worker wid = _
  rw [worker_setBucket m w.id wid fun k hk => by rw [SyncMap.load_loadOrStore, if_neg hk],
    SyncMap.load_loadOrStore, if_pos rfl]
  rfl

theorem worker_delBucket (m : WorkerManager) (wid wid' : UInt64) :
    (m.delBucket wid).worker wid' = if wid' = wid then none else m.worker wid' := by
  show (m.setBucket wid _).worker wid' = _
  rw [worker_setBucket m wid wid' fun k hk => by rw [SyncMap.load_delete, if_neg hk],
    SyncMap.load_delete, if_pos rfl]

@[simp] theorem worker_addSize (m : WorkerManager) (delta : Int64) (wid : UInt64) :
    (m.addSize delta).worker wid = m.worker wid := rfl

@[simp] theorem worker_newWorkerManager (c : BucketConf) (wid : UInt64) :
    (newWorkerManager c).worker wid = none := by
  unfold worker getBucket newWorkerManager
  rw [Fin.getElem_fin, Vector.getElem_replicate]
  exact SyncMap.load_empty wid

end WorkerManager

/-- `Put` of a worker whose id is taken returns the worker found there and writes nothing else. -/
theorem put_of_taken {m : WorkerManager} {w old : Worker} (idx : UidWidMap)
    (h : m.worker w.id = some old) : put idx m w = (some old, idx, (m.putBucket w).2) := by
  unfold put
  rw [show m.putBucket w = (some old, (m.putBucket w).2) by
    rw [← h, ← WorkerManager.putBucket_fst]]

/-- `Put` of a worker whose id is free writes the bucket, the index and the size. -/
theorem put_of_free {m : WorkerManager} {w : Worker} (idx : UidWidMap)
    (h : m.worker w.id = none) :
    put idx m w = (none, storeIndex idx w, (m.putBucket w).2.addSize 1) := by
  unfold put
  rw [show m.putBucket w = (none, (m.putBucket w).2) by
    rw [← h, ← WorkerManager.putBucket_fst]]

theorem load_storeIndex (idx : UidWidMap) (w : Worker) (k : Key) :
    (storeIndex idx w).load k = if k = .int64 w.uid then some w.id else idx.load k :=
  SyncMap.load_store ..

/-- The delete under a worker id leaves every entry of a user in place. -/
@[simp] theorem load_deleteIndex_int64 (idx : UidWidMap) (wid : UInt64) (uid : Int64) :
    (deleteIndex idx wid).load (.int64 uid) = idx.load (.int64 uid) := by
  unfold deleteIndex
  rw [SyncMap.load_delete, if_neg (by simp)]

end FabricaNet.Internal
