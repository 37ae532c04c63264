import Mathlib.Data.Finmap
import FabricaNet.Internal.UidIndex

/-!
# The sharded registry is one map

Every sequence of `Put`, `Del`, `Worker` and `Walk` calls on a manager returns what the same calls
on a single finite map from worker ids to workers return (`refines_one_map`), whatever the number of
buckets. When it is no power of two, the mask reaches only some of the buckets; the others stay
empty.

The simulation is `Represents`: the buckets hold together what the map holds, every entry stands in
the bucket that its id selects, and under the id of its worker. That an id has one bucket is what
makes `Worker` and `Put` agree with the map. That a worker stands in one bucket is what makes `Walk`
call its function once for each.
-/

namespace FabricaNet.Internal

open Go Lib

/-! ## The single map -/

/-- A call. `Walk` gets the orders of its `Range` calls and the answers of its function. -/
inductive ManagerOp where
  | put (w : Worker)
  | del (wid : UInt64)
  | worker (wid : UInt64)
  | walk (order : Nat → RangeOrder UInt64 Worker) (answer : List (Worker × Bool) → Worker → Bool)

/-- What a call returns; for `Walk`, the calls of its function with their answers. -/
inductive ManagerOut where
  | put (old : Option Worker)
  | del
  | worker (w : Option Worker)
  | walk (calls : List (Worker × Bool))

/-- A finite map from worker ids to workers. -/
abbrev OneMap := Finmap fun _ : UInt64 => Worker

namespace OneMap

/-- What `Walk` may do: which calls of its function it may make. -/
structure Walks (one : OneMap) (answer : List (Worker × Bool) → Worker → Bool)
    (calls : List (Worker × Bool)) : Prop where
  distinct : (calls.map Prod.fst).Nodup
  registered : ∀ c ∈ calls, one.lookup c.1.id = some c.1
  /-- the function answers each call, knowing the calls before -/
  answers : EachEvent (fun c pre => c.2 = answer pre c.1) calls
  /-- no call after an answer `false` -/
  stops : EachEvent (fun _ pre => ∀ c ∈ pre, c.2 = true) calls
  complete : (∀ c ∈ calls, c.2 = true) → ∀ wid w, one.lookup wid = some w → w ∈ calls.map Prod.fst

/-- The calls on the single map. -/
inductive Step (one : OneMap) : ManagerOp → ManagerOut → OneMap → Prop
  | putNew {w : Worker} (free : one.lookup w.id = none) :
      Step one (.put w) (.put none) (one.insert w.id w)
  | putTaken {w old : Worker} (taken : one.lookup w.id = some old) :
      Step one (.put w) (.put (some old)) one
  | del (wid : UInt64) : Step one (.del wid) .del (one.erase wid)
  | worker (wid : UInt64) : Step one (.worker wid) (.worker (one.lookup wid)) one
  | walk {order : Nat → RangeOrder UInt64 Worker} {answer : List (Worker × Bool) → Worker → Bool}
      {calls : List (Worker × Bool)} (walks : Walks one answer calls) :
      Step one (.walk order answer) (.walk calls) one

/-- A sequence of calls on the single map, with what they return. -/
inductive Run : OneMap → List ManagerOp → List ManagerOut → OneMap → Prop
  | nil (one : OneMap) : Run one [] [] one
  | cons {one one' one'' : OneMap} {op : ManagerOp} {ops : List ManagerOp} {out : ManagerOut}
      {outs : List ManagerOut} (step : Step one op out one') (rest : Run one' ops outs one'') :
      Run one (op :: ops) (out :: outs) one''

end OneMap

/-! ## The manager -/

namespace Registry

/-- A call on the manager. -/
def exec (r : Registry) : ManagerOp → ManagerOut × Registry
  | .put w =>
    let (old, idx, manager) := put r.idx r.manager w
    (.put old, { idx := idx, manager := manager })
  | .del wid =>
    let (idx, manager) := del r.idx r.manager wid
    (.del, { idx := idx, manager := manager })
  | .worker wid => (.worker (r.manager.worker wid), r)
  | .walk order answer => (.walk (r.manager.walk order (logging answer) []), r)

/-- A sequence of calls on the manager. -/
def execAll : Registry → List ManagerOp → List ManagerOut × Registry
  | r, [] => ([], r)
  | r, op :: ops =>
    let (out, r') := r.exec op
    let (outs, r'') := execAll r' ops
    (out :: outs, r'')

end Registry

namespace WorkerManager

variable {σ : Type}

/-! ## What `Walk` visits -/

/-- The workers in the buckets, in the order in which `Walk` comes to them. -/
def visitsFrom (order : Nat → RangeOrder UInt64 Worker) :
    Nat → List (SyncMap UInt64 Worker) → List Worker
  | _, [] => []
  | i, b :: bs => ((order i).visits b).map Prod.snd ++ visitsFrom order (i + 1) bs

/-- All workers of the manager, in the order in which `Walk` comes to them. -/
def enumeration (m : WorkerManager) (order : Nat → RangeOrder UInt64 Worker) : List Worker :=
  visitsFrom order 0 m.buckets.toList

/-- `continued` is the last answer of the function. -/
theorem visit_walkVisit (f : σ → Worker → σ × Bool) (s : σ) (es : List (UInt64 × Worker)) :
    (visit (fun st e => walkVisit f st e.1 e.2) (s, true) es).1 = visit f s (es.map Prod.snd) := by
  induction es generalizing s with
  | nil => rfl
  | cons e es ih =>
    rw [visit_cons, List.map_cons, visit_cons]
    show Prod.fst (if (f s e.2).2 = true then
      visit (fun st e => walkVisit f st e.1 e.2) (f s e.2) es else (f s e.2, false)) = _
    cases hgo : (f s e.2).2 with
    | false =>
      simp only [Bool.false_eq_true, if_false]
      rw [← hgo]
    | true =>
      simp only [if_true]
      rw [show f s e.2 = ((f s e.2).1, true) by rw [← hgo]]
      exact ih _

theorem walkBuckets_eq (order : Nat → RangeOrder UInt64 Worker) (f : σ → Worker → σ × Bool)
    (i : Nat) (bs : List (SyncMap UInt64 Worker)) (s : σ) :
    walkBuckets order f i bs (s, true) = visit f s (visitsFrom order i bs) := by
  induction bs generalizing i s with
  | nil => rfl
  | cons b bs ih =>
    have hrange : b.range (order i) (walkVisit f) (s, true) =
        visit f s (((order i).visits b).map Prod.snd) := visit_walkVisit f s _
    rw [walkBuckets, visitsFrom, visit_append, hrange]
    rcases visit f s (((order i).visits b).map Prod.snd) with ⟨s', continued⟩
    cases continued with
    | false => rfl
    | true => exact ih (i + 1) s'

/-- **`Walk` calls its function on the workers one after the other, until it answers `false`.** -/
theorem walk_eq (m : WorkerManager) (order : Nat → RangeOrder UInt64 Worker)
    (f : σ → Worker → σ × Bool) (s : σ) : m.walk order f s = (visit f s (m.enumeration order)).1 :=
  congrArg Prod.fst (walkBuckets_eq order f 0 m.buckets.toList s)

/-! ## Every worker stands in its bucket -/

/-- Every entry stands in the bucket that its id selects, under the id of its worker. -/
def Sharded (m : WorkerManager) : Prop :=
  ∀ (i : Nat) b wid w, m.buckets.toList[i]? = some b → SyncMap.load b wid = some w →
    (m.bucketIdx wid : Nat) = i ∧ w.id = wid

theorem getElem?_bucketIdx (m : WorkerManager) (wid : UInt64) :
    m.buckets.toList[(m.bucketIdx wid : Nat)]? = some (m.getBucket wid) := by
  rw [List.getElem?_eq_some_iff]
  exact ⟨by simp, by simp [getBucket]⟩

theorem sharded_newWorkerManager (c : BucketConf) : (newWorkerManager c).Sharded := by
  intro i b wid w hb hw
  have hempty : b = SyncMap.empty := by
    have hmem := List.mem_of_getElem? hb
    rw [newWorkerManager, Vector.toList_replicate] at hmem
    exact List.eq_of_mem_replicate hmem
  rw [hempty, SyncMap.load_empty] at hw
  cases hw

theorem Sharded.of_getBucket {m : WorkerManager} (h : m.Sharded) {wid wid' : UInt64} {w : Worker}
    (hw : (m.getBucket wid).load wid' = some w) :
    (m.bucketIdx wid' : Nat) = m.bucketIdx wid ∧ w.id = wid' :=
  h _ _ wid' w (m.getElem?_bucketIdx wid) hw

/-- A bucket is replaced by one that has entries of its own only. -/
theorem Sharded.setBucket {m : WorkerManager} (h : m.Sharded) {wid : UInt64}
    {b : SyncMap UInt64 Worker}
    (hb : ∀ k w, b.load k = some w → (m.bucketIdx k : Nat) = m.bucketIdx wid ∧ w.id = k) :
    (m.setBucket wid b).Sharded := by
  intro i b' k w hb' hw
  have hset : (m.setBucket wid b).buckets.toList = m.buckets.toList.set (m.bucketIdx wid) b :=
    Vector.toList_set (m.bucketIdx wid).isLt
  rw [hset, List.getElem?_set] at hb'
  split at hb'
  · next hi =>
    subst hi
    obtain ⟨-, hb''⟩ := Option.ite_none_right_eq_some.mp hb'
    cases hb''
    exact hb k w hw
  · exact h i b' k w hb' hw

theorem Sharded.putBucket {m : WorkerManager} (h : m.Sharded) (w : Worker) :
    (m.putBucket w).2.Sharded := by
  refine h.setBucket fun k v hv => ?_
  rw [SyncMap.load_loadOrStore] at hv
  split at hv
  · next hk =>
    subst hk
    refine ⟨rfl, ?_⟩
    cases hold : (m.getBucket w.id).load w.id with
    | none =>
      rw [hold] at hv
      cases hv
      rfl
    | some old =>
      rw [hold] at hv
      cases hv
      exact (h.of_getBucket hold).2
  · exact h.of_getBucket hv

theorem Sharded.delBucket {m : WorkerManager} (h : m.Sharded) (wid : UInt64) :
    (m.delBucket wid).Sharded := by
  refine h.setBucket fun k v hv => ?_
  rw [SyncMap.load_delete] at hv
  split at hv
  · cases hv
  · exact h.of_getBucket hv

theorem Sharded.addSize {m : WorkerManager} (h : m.Sharded) (delta : Int64) :
    (m.addSize delta).Sharded := h

theorem Sharded.put {m : WorkerManager} (h : m.Sharded) (idx : UidWidMap) (w : Worker) :
    (put idx m w).2.2.Sharded := by
  unfold Internal.put
  split
  · next old m' heq =>
    have hput := h.putBucket w
    rw [heq] at hput
    exact hput
  · next m' heq =>
    have hput := h.putBucket w
    rw [heq] at hput
    exact hput.addSize 1

theorem Sharded.del {m : WorkerManager} (h : m.Sharded) (idx : UidWidMap) (wid : UInt64) :
    (del idx m wid).2.Sharded := (h.delBucket wid).addSize (-1)

theorem Sharded.id_eq {m : WorkerManager} (h : m.Sharded) {wid : UInt64} {w : Worker}
    (hw : m.worker wid = some w) : w.id = wid := (h.of_getBucket hw).2

/-! ## `Walk` comes to every worker once -/

theorem mem_visitsFrom {order : Nat → RangeOrder UInt64 Worker} {i : Nat}
    {bs : List (SyncMap UInt64 Worker)} {w : Worker} :
    w ∈ visitsFrom order i bs ↔
      ∃ (j : Nat) (b : SyncMap UInt64 Worker) (wid : UInt64), bs[j]? = some b ∧
        b.load wid = some w := by
  induction bs generalizing i with
  | nil => simp [visitsFrom]
  | cons b bs ih =>
    have hhead : w ∈ ((order i).visits b).map Prod.snd ↔ ∃ wid, b.load wid = some w := by
      simp [RangeOrder.mem_visits]
    rw [visitsFrom, List.mem_append, hhead, ih]
    constructor
    · rintro (⟨wid, hw⟩ | ⟨j, b', wid, hb, hw⟩)
      · exact ⟨0, b, wid, rfl, hw⟩
      · exact ⟨j + 1, b', wid, hb, hw⟩
    · rintro ⟨j, b', wid, hb, hw⟩
      cases j with
      | zero =>
        cases hb
        exact Or.inl ⟨wid, hw⟩
      | succ j => exact Or.inr ⟨j, b', wid, hb, hw⟩

/-- `place` is where an id belongs; each bucket has the ids that belong there. -/
theorem nodup_visitsFrom (order : Nat → RangeOrder UInt64 Worker) (place : UInt64 → Nat) {i : Nat}
    {bs : List (SyncMap UInt64 Worker)}
    (h : ∀ (j : Nat) b wid w, bs[j]? = some b → SyncMap.load b wid = some w →
      place wid = i + j ∧ w.id = wid) : (visitsFrom order i bs).Nodup := by
  induction bs generalizing i with
  | nil => exact List.nodup_nil
  | cons b bs ih =>
    have htail : ∀ (j : Nat) b' wid w, bs[j]? = some b' → SyncMap.load b' wid = some w →
        place wid = i + 1 + j ∧ w.id = wid := by
      intro j b' wid w hb' hw
      obtain ⟨hplace, hid⟩ := h (j + 1) b' wid w hb' hw
      exact ⟨by omega, hid⟩
    rw [visitsFrom]
    refine List.Nodup.append ?_ (ih htail) ?_
    · -- the key of an entry is the id of its worker, so no worker has two entries
      refine List.Nodup.of_map Worker.id ?_
      rw [List.map_map]
      have hkeys : ((order i).visits b).map (Worker.id ∘ Prod.snd) =
          ((order i).visits b).map Prod.fst := by
        refine List.map_congr_left fun e he => ?_
        exact (h 0 b e.1 e.2 rfl (RangeOrder.mem_visits.mp he)).2
      rw [hkeys]
      exact (order i).nodup_keys b
    · -- a worker of a later bucket belongs there
      intro w hhead hlater
      obtain ⟨⟨wid, w'⟩, he, rfl⟩ := List.mem_map.mp hhead
      obtain ⟨hplace, hid⟩ := h 0 b wid w' rfl (RangeOrder.mem_visits.mp he)
      obtain ⟨j, b', wid', hb', hw'⟩ := mem_visitsFrom.mp hlater
      obtain ⟨hplace', hid'⟩ := htail j b' wid' w' hb' hw'
      rw [← hid', hid] at hplace'
      omega

theorem Sharded.nodup_enumeration {m : WorkerManager} (h : m.Sharded)
    (order : Nat → RangeOrder UInt64 Worker) : (m.enumeration order).Nodup := by
  refine nodup_visitsFrom order (fun wid => m.bucketIdx wid) fun j b wid w hb hw => ?_
  obtain ⟨hidx, hid⟩ := h j b wid w hb hw
  exact ⟨by omega, hid⟩

theorem Sharded.mem_enumeration {m : WorkerManager} (h : m.Sharded)
    {order : Nat → RangeOrder UInt64 Worker} {w : Worker} :
    w ∈ m.enumeration order ↔ m.worker w.id = some w := by
  rw [enumeration, mem_visitsFrom]
  constructor
  · rintro ⟨j, b, wid, hb, hw⟩
    obtain ⟨hidx, hid⟩ := h j b wid w hb hw
    rw [← hidx, getElem?_bucketIdx] at hb
    cases hb
    rw [hid]
    exact hw
  · intro hw
    exact ⟨_, _, w.id, m.getElem?_bucketIdx w.id, hw⟩

end WorkerManager

/-! ## Simulation -/

namespace Registry

/-- The manager holds what the single map holds. -/
structure Represents (m : WorkerManager) (one : OneMap) : Prop where
  sharded : m.Sharded
  lookup_eq : ∀ wid, one.lookup wid = m.worker wid

theorem represents_newWorkerManager (c : BucketConf) : Represents (newWorkerManager c) ∅ := by
  refine ⟨WorkerManager.sharded_newWorkerManager c, fun wid => ?_⟩
  rw [Finmap.lookup_empty, WorkerManager.worker_newWorkerManager]

variable {m : WorkerManager} {one : OneMap}

/-- `Put` changes the manager in the same way whether it finds the id free or taken. -/
theorem Represents.put (h : Represents m one) (idx : UidWidMap) (w : Worker) :
    ∃ one', OneMap.Step one (.put w) (.put (put idx m w).1) one' ∧
      Represents (put idx m w).2.2 one' := by
  cases hw : m.worker w.id with
  | some old =>
    refine ⟨one, ?_, h.sharded.put idx w, fun wid => ?_⟩ <;> rw [put_of_taken idx hw]
    · exact .putTaken (by rw [h.lookup_eq, hw])
    rw [h.lookup_eq, WorkerManager.worker_putBucket, hw]
    split
    · next hwid =>
      rw [hwid, hw]
      rfl
    · rfl
  | none =>
    refine ⟨one.insert w.id w, ?_, h.sharded.put idx w, fun wid => ?_⟩ <;> rw [put_of_free idx hw]
    · exact .putNew (by rw [h.lookup_eq, hw])
    rw [WorkerManager.worker_addSize, WorkerManager.worker_putBucket, hw]
    split
    · next hwid =>
      rw [hwid, Finmap.lookup_insert]
      rfl
    · next hwid => rw [Finmap.lookup_insert_of_ne _ hwid, h.lookup_eq]

theorem Represents.del (h : Represents m one) (idx : UidWidMap) (wid : UInt64) :
    Represents (del idx m wid).2 (one.erase wid) := by
  refine ⟨h.sharded.del idx wid, fun wid' => ?_⟩
  show _ = ((m.delBucket wid).addSize (-1)).worker wid'
  rw [WorkerManager.worker_addSize, WorkerManager.worker_delBucket]
  split
  · next hwid => rw [hwid, Finmap.lookup_erase]
  · next hwid => rw [Finmap.lookup_erase_ne hwid, h.lookup_eq]

theorem Represents.walk (h : Represents m one) (order : Nat → RangeOrder UInt64 Worker)
    (answer : List (Worker × Bool) → Worker → Bool) :
    one.Walks answer (m.walk order (logging answer) []) := by
  rw [WorkerManager.walk_eq]
  have hcalled := called_visit answer (m.enumeration order)
  refine ⟨?_, fun c hc => ?_, hcalled.answers, hcalled.stops, fun hall wid w hw => ?_⟩
  · exact (h.sharded.nodup_enumeration order).sublist hcalled.in_order.sublist
  · rw [h.lookup_eq]
    exact h.sharded.mem_enumeration.mp (hcalled.in_order.subset (List.mem_map_of_mem hc))
  · rw [hcalled.complete hall]
    rw [h.lookup_eq] at hw
    refine h.sharded.mem_enumeration.mpr ?_
    rw [h.sharded.id_eq hw]
    exact hw

/-- **Every call returns what the single map returns, and leaves the two in step.** -/
theorem Represents.exec {r : Registry} (h : Represents r.manager one) (op : ManagerOp) :
    ∃ one', OneMap.Step one op (r.exec op).1 one' ∧ Represents (r.exec op).2.manager one' := by
  cases op with
  | put w => exact h.put r.idx w
  | del wid => exact ⟨_, .del wid, h.del r.idx wid⟩
  | worker wid =>
    refine ⟨one, ?_, h⟩
    show OneMap.Step one (.worker wid) (.worker (r.manager.worker wid)) one
    rw [← h.lookup_eq]
    exact .worker wid
  | walk order answer => exact ⟨one, .walk (h.walk order answer), h⟩

theorem Represents.execAll {r : Registry} (h : Represents r.manager one) (ops : List ManagerOp) :
    ∃ one', OneMap.Run one ops (r.execAll ops).1 one' ∧
      Represents (r.execAll ops).2.manager one' := by
  induction ops generalizing r one with
  | nil => exact ⟨one, .nil one, h⟩
  | cons op ops ih =>
    obtain ⟨one', hstep, h'⟩ := h.exec op
    obtain ⟨one'', hrun, h''⟩ := ih h'
    exact ⟨one'', .cons hstep hrun, h''⟩

/--
**For every number of buckets, every sequence of calls returns what the same calls on a single map
return.** Afterwards the manager still holds what the map holds, and the bucket key of every id is
below the number of buckets.
-/
theorem refines_one_map (c : BucketConf) (idx : UidWidMap) (ops : List ManagerOp) :
    let r := execAll { idx := idx, manager := newWorkerManager c } ops
    ∃ one, OneMap.Run ∅ ops r.1 one ∧ (∀ wid, one.lookup wid = r.2.manager.worker wid) ∧
      ∀ wid, (getBucketKey wid r.2.manager.shardCount).toNat <
        r.2.manager.buckets.toList.length := by
  intro r
  have hnew : Represents (Registry.mk idx (newWorkerManager c)).manager ∅ :=
    represents_newWorkerManager c
  obtain ⟨one, hrun, h⟩ := hnew.execAll ops
  refine ⟨one, hrun, h.lookup_eq, fun wid => ?_⟩
  rw [Vector.length_toList]
  exact getBucketKey_lt wid r.2.manager.shardCount_pos

end Registry

end FabricaNet.Internal
