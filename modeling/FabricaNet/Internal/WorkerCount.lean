import FabricaNet.Internal.BaseServer
import FabricaNet.Internal.OneMap
import FabricaNet.Lib.Count

/-!
# The size of the registry

`WorkerManager.size` against the number of workers in the buckets, over the calls of `Put` and
`Del` that a server makes: `addWorker` when a connection has been set up, the deferred `delWorker`
of `work`, and the `delWorker` of `Disconnect`. A call is one step; the goroutines interleave
between the calls.

`Del` takes one off the size whether it finds a worker or not. So the size is right for as long as
every `Del` finds one (`eachState_countExact_iff`), and a `Disconnect` followed by the deferred
`delWorker` of the same worker makes it wrong.
-/

namespace FabricaNet.Internal

open Go Lib Xnet

/-! ## The number of workers -/

namespace WorkerManager

/-- The number of workers in the buckets. -/
def workerCount (m : WorkerManager) : Nat := (m.buckets.toList.map fun b => b.toList.length).sum

theorem workerCount_newWorkerManager (c : BucketConf) : (newWorkerManager c).workerCount = 0 := by
  unfold workerCount newWorkerManager
  rw [Vector.toList_replicate, List.map_replicate, List.sum_replicate]
  exact Nat.mul_zero _

@[simp] theorem workerCount_addSize (m : WorkerManager) (delta : Int64) :
    (m.addSize delta).workerCount = m.workerCount := rfl

/-- The number of workers changes by what the bucket changes. -/
theorem workerCount_setBucket (m : WorkerManager) (wid : UInt64) (b : SyncMap UInt64 Worker) :
    (m.setBucket wid b).workerCount + (m.getBucket wid).toList.length =
      m.workerCount + b.toList.length := by
  have hset : (m.setBucket wid b).buckets.toList = m.buckets.toList.set (m.bucketIdx wid) b :=
    Vector.toList_set (m.bucketIdx wid).isLt
  unfold workerCount
  rw [hset]
  exact sum_map_set (fun b : SyncMap UInt64 Worker => b.toList.length) (m.getElem?_bucketIdx wid) b

/-- `Put` of a worker whose id is free adds one. -/
theorem workerCount_putBucket_of_free {m : WorkerManager} {w : Worker}
    (h : m.worker w.id = none) : (m.putBucket w).2.workerCount = m.workerCount + 1 := by
  have hload : (m.getBucket w.id).load w.id = none := h
  have hset := m.workerCount_setBucket w.id ((m.getBucket w.id).store w.id w)
  rw [SyncMap.length_store_of_none hload] at hset
  rw [putBucket, SyncMap.loadOrStore, hload]
  dsimp only
  omega

/-- `Put` of a worker whose id is taken adds none. -/
theorem workerCount_putBucket_of_taken {m : WorkerManager} {w old : Worker}
    (h : m.worker w.id = some old) : (m.putBucket w).2.workerCount = m.workerCount := by
  have hload : (m.getBucket w.id).load w.id = some old := h
  have hset := m.workerCount_setBucket w.id (m.getBucket w.id)
  rw [putBucket, SyncMap.loadOrStore, hload]
  dsimp only
  omega

/-- `Del` of a registered worker takes one away. -/
theorem workerCount_delBucket_of_some {m : WorkerManager} {wid : UInt64} {w : Worker}
    (h : m.worker wid = some w) : (m.delBucket wid).workerCount + 1 = m.workerCount := by
  have hset := m.workerCount_setBucket wid ((m.getBucket wid).delete wid)
  have hlen := SyncMap.length_delete_of_some h
  rw [delBucket]
  omega

/-- `Del` of an id that is free takes none away. -/
theorem workerCount_delBucket_of_none {m : WorkerManager} {wid : UInt64}
    (h : m.worker wid = none) : (m.delBucket wid).workerCount = m.workerCount := by
  have hset := m.workerCount_setBucket wid ((m.getBucket wid).delete wid)
  rw [SyncMap.delete_of_none h] at hset
  rw [delBucket, SyncMap.delete_of_none h]
  omega

end WorkerManager

/-! ## The size -/

namespace Registry

/-- The size is the number of workers, and not negative. -/
def CountExact (r : Registry) : Prop :=
  r.manager.size.toInt = r.manager.workerCount ∧ 0 ≤ r.manager.size

/-- `Put` does not bring the number of workers to `2 ^ 63`, and `Del` finds a worker. -/
def KeepsCount (r : Registry) : RegistryOp → Prop
  | .put w => r.worker w.id = none → r.manager.workerCount + 1 < 2 ^ 63
  | .del wid => r.worker wid ≠ none

theorem countExact_iff {r : Registry} :
    CountExact r ↔ r.manager.size.toInt = r.manager.workerCount := by
  refine and_iff_left_of_imp fun h => ?_
  rw [Int64.le_iff_toInt_le, h]
  exact Int.natCast_nonneg _

theorem countExact_put {r r' : Registry} {w : Worker} (h : r.step (.put w) = some r')
    (hr : CountExact r) : CountExact r' ↔ KeepsCount r (.put w) := by
  rw [countExact_iff] at hr ⊢
  cases hw : r.worker w.id with
  | some old =>
    simp only [step, put_of_taken r.idx hw, Option.some.injEq] at h
    subst h
    refine iff_of_true ?_ fun hnone => ?_
    · rw [WorkerManager.workerCount_putBucket_of_taken hw]
      exact hr
    · rw [hw] at hnone
      cases hnone
  | none =>
    simp only [step, put_of_free r.idx hw, Option.some.injEq] at h
    subst h
    have hsize : ((r.manager.putBucket w).2.addSize 1).size.toInt =
        (r.manager.size.toInt + 1).bmod (2 ^ 64) := Int64.toInt_add r.manager.size 1
    rw [hsize, WorkerManager.workerCount_addSize,
      WorkerManager.workerCount_putBucket_of_free hw, hr, Int.natCast_succ]
    have hlt := Int64.toInt_lt r.manager.size
    constructor
    · -- `2 ^ 63` itself wraps to a negative number
      intro hexact _
      have hmod := Int.bmod_lt (x := (r.manager.workerCount : Int) + 1) (m := 2 ^ 64) (by decide)
      omega
    · intro hkeeps
      have hbound := hkeeps hw
      exact Int.bmod_eq_of_le (by omega) (by omega)

theorem countExact_del {r r' : Registry} {wid : UInt64} (h : r.step (.del wid) = some r')
    (hr : CountExact r) : CountExact r' ↔ KeepsCount r (.del wid) := by
  rw [countExact_iff] at hr ⊢
  simp only [step, del, Option.some.injEq] at h
  subst h
  have hlt := Int64.toInt_lt r.manager.size
  have hsize : ((r.manager.delBucket wid).addSize (-1)).size.toInt =
      r.manager.size.toInt - 1 := by
    have hadd : ((r.manager.delBucket wid).addSize (-1)).size.toInt =
        (r.manager.size.toInt + -1).bmod (2 ^ 64) := Int64.toInt_add r.manager.size (-1)
    rw [hadd, Int.bmod_eq_of_le (by omega) (by omega)]
    omega
  rw [hsize, WorkerManager.workerCount_addSize, hr]
  cases hw : r.worker wid with
  | some w =>
    have hcount := WorkerManager.workerCount_delBucket_of_some hw
    refine iff_of_true ?_ ?_
    · rw [← hcount, Int.natCast_succ, Int.add_sub_cancel]
    · rw [KeepsCount, hw]
      exact Option.some_ne_none w
  | none =>
    refine iff_of_false ?_ fun hfound => hfound hw
    rw [WorkerManager.workerCount_delBucket_of_none hw]
    exact (Int.sub_lt_self _ Int.one_pos).ne

/-- **A call keeps the size right exactly under its condition.** -/
theorem countExact_step {r r' : Registry} {op : RegistryOp} (h : r.step op = some r')
    (hr : CountExact r) : CountExact r' ↔ KeepsCount r op := by
  cases op with
  | put w => exact countExact_put h hr
  | del wid => exact countExact_del h hr

theorem countExact_init (c : BucketConf) : CountExact (init c) := by
  rw [countExact_iff]
  show (0 : Int64).toInt = ((newWorkerManager c).workerCount : Int)
  rw [WorkerManager.workerCount_newWorkerManager]
  rfl

end Registry

/-! ## The calls of a server -/

/-- Where `work` is, as far as the registry is concerned. -/
inductive ConnPc where
  /-- before `addWorker` -/
  | connecting
  /-- in `AfterConnect` or `Run`; the call of `delWorker` is deferred -/
  | serving
  /-- the deferred `delWorker` is next -/
  | leaving
  | gone
deriving DecidableEq, Repr

/-- A server, its connections and the calls of `Disconnect`. -/
structure CountRun where
  registry : Registry
  stopping : Bool
  conns : List (Worker × ConnPc)
  disconnects : List DisconnectPc

inductive CountAct where
  /-- a connection, with the worker that `newWorker` builds for it -/
  | connect (w : Worker)
  /-- `w.Start` returns an error -/
  | startFailed (i : Nat)
  /-- `addWorker`; `ok` is whether `ow.Stop` of a worker that is replaced returns nil -/
  | addWorker (i : Nat) (ok : Bool)
  /-- `AfterConnect` returns an error, or `Run` returns -/
  | workReturns (i : Nat)
  /-- the deferred `delWorker` -/
  | delWorker (i : Nat)
  | disconnect (wid : UInt64)
  /-- the next part of a `Disconnect`; `err` is what `w.Stop` returns -/
  | disconnectStep (k : Nat) (err : Option Err)
  /-- `Stop` is called; from here on the workers are stopped, so that `Run` returns -/
  | stop
deriving DecidableEq, Repr

namespace CountRun

/-- After `NewBaseServer` and `Start`. -/
def init (c : BucketConf) : CountRun :=
  { registry := Registry.init c, stopping := false, conns := [], disconnects := [] }

/-- `Put`: the worker found, and the server after the call. -/
def put (s : CountRun) (w : Worker) : Option Worker × CountRun :=
  let (old, idx, manager) := Internal.put s.registry.idx s.registry.manager w
  (old, { s with registry := { idx := idx, manager := manager } })

/-- `delWorker`. -/
def delWorker (s : CountRun) (wid : UInt64) : CountRun :=
  let (idx, manager) := Internal.del s.registry.idx s.registry.manager wid
  { s with registry := { idx := idx, manager := manager } }

/-- The server with the state of one connection replaced. -/
def setConn (s : CountRun) (i : Nat) (w : Worker) (pc : ConnPc) : CountRun :=
  { s with conns := s.conns.set i (w, pc) }

/-- The server with the state of one `Disconnect` replaced. -/
def setDisconnect (s : CountRun) (k : Nat) (pc : DisconnectPc) : CountRun :=
  { s with disconnects := s.disconnects.set k pc }

/-- The next part of `Disconnect`. -/
def disconnectStep (s : CountRun) (k : Nat) (err : Option Err) : DisconnectPc → Option CountRun
  | .check wid =>
    if s.stopping then some (s.setDisconnect k (.returned (some errIsStopped)))
    else some (s.setDisconnect k (.lookup wid))
  | .lookup wid =>
    match s.registry.worker wid with
    | none => some (s.setDisconnect k (.returned (some (.new "worker not found"))))
    | some w => some (s.setDisconnect k (.delWorker wid w))
  | .delWorker wid w => some ((s.delWorker wid).setDisconnect k (.stop w))
  -- `w.Stop` makes `work` return, which any `serving` connection may do at any time
  | .stop _ => some (s.setDisconnect k (.returned err))
  | .returned _ => none

def step (s : CountRun) : CountAct → Option CountRun
  | .connect w =>
    if w.id ∈ s.conns.map fun c => c.1.id then none
    else some { s with conns := s.conns ++ [(w, .connecting)] }
  | .startFailed i =>
    match s.conns[i]? with
    | some (w, .connecting) => some (s.setConn i w .gone)
    | _ => none
  | .addWorker i ok =>
    match s.conns[i]? with
    | some (w, .connecting) =>
      match s.put w with
      | (none, s) => some (s.setConn i w .serving)
      -- an error of `ow.Stop` is returned before `delWorker` is deferred
      | (some _, s) => some (s.setConn i w (if ok then .serving else .gone))
    | _ => none
  | .workReturns i =>
    match s.conns[i]? with
    | some (w, .serving) => some (s.setConn i w .leaving)
    | _ => none
  | .delWorker i =>
    match s.conns[i]? with
    | some (w, .leaving) => some ((s.delWorker w.id).setConn i w .gone)
    | _ => none
  | .disconnect wid => some { s with disconnects := s.disconnects ++ [.check wid] }
  | .disconnectStep k err =>
    match s.disconnects[k]? with
    | some pc => s.disconnectStep k err pc
    | none => none
  | .stop => some { s with stopping := true }

/-- The call on the registry that a step makes. -/
def call (s : CountRun) : CountAct → Option RegistryOp
  | .addWorker i _ =>
    match s.conns[i]? with
    | some (w, .connecting) => some (.put w)
    | _ => none
  | .delWorker i =>
    match s.conns[i]? with
    | some (w, .leaving) => some (.del w.id)
    | _ => none
  | .disconnectStep k _ =>
    match s.disconnects[k]? with
    | some (.delWorker wid _) => some (.del wid)
    | _ => none
  | _ => none

/-- A step makes its call on the registry, and otherwise leaves it alone. -/
theorem step_registry {s s' : CountRun} {a : CountAct} (h : s.step a = some s') :
    match s.call a with
    | none => s'.registry = s.registry
    | some op => s.registry.step op = some s'.registry := by
  cases a with
  | connect w =>
    simp only [step] at h
    split at h
    · cases h
    · cases h
      rfl
  | startFailed i =>
    simp only [step] at h
    split at h
    · cases h
      rfl
    · cases h
  | addWorker i ok =>
    simp only [step] at h
    simp only [call]
    split at h
    next w _ =>
      simp only [Registry.step]
      rcases hput : Internal.put s.registry.idx s.registry.manager w with ⟨old, idx, m⟩
      simp only [put, hput] at h
      cases old with
      | none => cases h; rfl
      | some old => cases h; rfl
    · cases h
  | workReturns i =>
    simp only [step] at h
    split at h
    · cases h
      rfl
    · cases h
  | delWorker i =>
    simp only [step] at h
    simp only [call]
    split at h
    · cases h
      rfl
    · cases h
  | disconnect wid =>
    cases h
    rfl
  | disconnectStep k err =>
    simp only [step] at h
    simp only [call]
    split at h
    next pc hpc =>
      rw [hpc]
      cases pc with
      | check wid =>
        simp only [disconnectStep] at h
        split at h <;> cases h <;> rfl
      | lookup wid =>
        simp only [disconnectStep] at h
        split at h <;> cases h <;> rfl
      | delWorker wid w =>
        cases h
        rfl
      | stop w =>
        cases h
        rfl
      | returned err => cases h
    · cases h
  | stop =>
    cases h
    rfl

/-- The size of the manager is the number of workers in its buckets, and not negative. -/
def CountExact (s : CountRun) : Prop := Registry.CountExact s.registry

/--
**The size is right in every state of a run exactly as long as every `Del` finds a worker** (and the
number of workers stays below `2 ^ 63`).
-/
theorem eachState_countExact_iff (c : BucketConf) (acts : List CountAct) :
    EachState step CountExact (init c) acts ↔
      EachStep step (fun s a _ => ∀ op, s.call a = some op → s.registry.KeepsCount op) (init c)
        acts := by
  refine eachState_iff_of_step (I := fun _ _ => True) (fun _ _ _ _ _ _ => trivial) ?_ trivial
    (Registry.countExact_init c)
  intro s a s' _ _ hs hstep
  have hreg := step_registry hstep
  cases hcall : s.call a with
  | none =>
    rw [hcall] at hreg
    refine iff_of_true ?_ (fun op hop => by cases hop)
    rw [CountExact, hreg]
    exact hs
  | some op =>
    rw [hcall] at hreg
    rw [CountExact, Registry.countExact_step hreg hs]
    exact ⟨fun h op' hop => by cases hop; exact h, fun h => h op rfl⟩

/-- One bucket. -/
def oneBucket : BucketConf := ⟨1, by decide⟩

/-- One connection; it is disconnected, and then `work` returns. -/
def disconnectThenReturn : List CountAct :=
  [.connect ⟨0, 1, none⟩, .addWorker 0 true, .disconnect 1, .disconnectStep 0 none,
    .disconnectStep 0 none, .disconnectStep 0 none, .disconnectStep 0 none, .workReturns 0,
    .delWorker 0]

/-- At the end there is no worker, and the size is -1. -/
theorem disconnect_makes_size_negative :
    (run step (init oneBucket) disconnectThenReturn).map
      (fun s => (s.registry.manager.workerCount, s.registry.manager.size)) = some (0, -1) ∧
    ¬EachState step CountExact (init oneBucket) disconnectThenReturn := by
  have hrun : (run step (init oneBucket) disconnectThenReturn).map
      (fun s => (s.registry.manager.workerCount, s.registry.manager.size)) = some (0, -1) := by
    decide
  refine ⟨hrun, fun h => ?_⟩
  obtain ⟨s, hs, hpair⟩ := Option.map_eq_some_iff.mp hrun
  obtain ⟨-, hsize⟩ := Prod.mk.inj hpair
  have hpos := (h.of_run hs).2
  rw [hsize] at hpos
  exact absurd hpos (by decide)

end CountRun

end FabricaNet.Internal
