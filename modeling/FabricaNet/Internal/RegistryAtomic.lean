import FabricaNet.Internal.WorkerManager
import FabricaNet.Lib.Linear
import FabricaNet.Lib.Run

/-!
# Concurrent calls of the registry

`Put`, `Del`, `Worker` and `GetByUID` of `internal/workermanager.go` at the granularity of the
`sync.Map` and `atomic.Int64` operations that they are made of. Any number of managers share the
index `uidWidMap`, and any number of goroutines call them.

* `Put` is `LoadOrStore` on a bucket, then `Store` on the index, then the size
* `Del` is `Delete` on the index, then `Delete` on a bucket, then the size
* `GetByUID` is `Load` on the index, then `Load` on a bucket

A call of `Put`, `Del` or `Worker` takes effect when it works on its bucket
(`registry_linearizable`). The index and the size lag behind, so `GetByUID` is not such a call. It
still finds only workers of the user it was asked for, as long as no worker id is used for two users
(`getByUID_finds_own`).
-/

namespace FabricaNet.Internal

open Go Lib

/-- A call that takes effect at one point, with the number of its manager. -/
inductive CallOp where
  | put (k : Nat) (w : Worker)
  | del (k : Nat) (wid : UInt64)
  | worker (k : Nat) (wid : UInt64)
deriving DecidableEq

/-- What a call returns. -/
inductive CallRes where
  | put (old : Option Worker)
  | del
  | worker (w : Option Worker)
deriving DecidableEq

/-- What the managers have registered: one map for each of them. -/
abbrev Registered := Nat → UInt64 → Option Worker

/-- The registry as one map for each manager. -/
def Registered.set (r : Registered) (k : Nat) (wid : UInt64) (w : Option Worker) : Registered :=
  Function.update r k (Function.update (r k) wid w)

/-- What the calls are meant to do. -/
def callSpec (r : Registered) : CallOp → CallRes × Registered
  | .put k w => (.put (r k w.id), r.set k w.id (some ((r k w.id).getD w)))
  | .del k wid => (.del, r.set k wid none)
  | .worker k wid => (.worker (r k wid), r)

/-- Where a call is: the operation that comes next. -/
inductive RegistryPc where
  | idle
  /-- `Put`: `LoadOrStore` on the bucket -/
  | loadOrStore (k : Nat) (w : Worker)
  /-- `Put`: `uidWidMap.Store` -/
  | storeIndex (k : Nat) (w : Worker)
  /-- `Put`: `m.size.Add(1)` -/
  | addSize (k : Nat)
  /-- `Del`: `uidWidMap.Delete` -/
  | deleteIndex (k : Nat) (wid : UInt64)
  /-- `Del`: `Delete` on the bucket -/
  | deleteBucket (k : Nat) (wid : UInt64)
  /-- `Del`: `m.size.Add(-1)` -/
  | subSize (k : Nat)
  /-- `Worker`: `Load` on the bucket -/
  | loadBucket (k : Nat) (wid : UInt64)
  /-- `GetByUID`: `uidWidMap.Load` -/
  | loadIndex (k : Nat) (uid : Int64)
  /-- `GetByUID`: `Load` on the bucket -/
  | lookUp (k : Nat) (uid : Int64) (wid : UInt64)
  /-- the return -/
  | ret (res : CallRes)
  | returned (res : CallRes)
  /-- `GetByUID` has returned -/
  | found (uid : Int64) (w : Option Worker)

structure RegistryRun where
  idx : UidWidMap
  managers : Nat → WorkerManager
  calls : Nat → RegistryPc
  /-- what has taken effect so far, and when the calls began and returned -/
  hist : History Nat CallOp CallRes

inductive RegistryAct where
  | put (i k : Nat) (w : Worker)
  | del (i k : Nat) (wid : UInt64)
  | worker (i k : Nat) (wid : UInt64)
  | getByUID (i k : Nat) (uid : Int64)
  /-- the next operation of the `i`-th call -/
  | step (i : Nat)

namespace RegistryRun

def init (confs : Nat → BucketConf) : RegistryRun where
  idx := SyncMap.empty
  managers := fun k => newWorkerManager (confs k)
  calls := fun _ => .idle
  hist := History.init

def setCall (s : RegistryRun) (i : Nat) (pc : RegistryPc) : RegistryRun :=
  { s with calls := Function.update s.calls i pc }

def setManager (s : RegistryRun) (k : Nat) (m : WorkerManager) : RegistryRun :=
  { s with managers := Function.update s.managers k m }

/-- The `i`-th call begins. -/
def beginCall (s : RegistryRun) (i : Nat) (op : CallOp) (pc : RegistryPc) : Option RegistryRun :=
  match s.calls i with
  | .idle => some ({ s with hist := s.hist.invoke i op }.setCall i pc)
  | _ => none

/-- The `i`-th call takes effect. -/
def point (s : RegistryRun) (i : Nat) (res : CallRes) : RegistryRun :=
  { s with hist := s.hist.point i res }

/-- The next operation of a call. -/
def callStep (s : RegistryRun) (i : Nat) : Option RegistryRun :=
  match s.calls i with
  | .loadOrStore k w =>
    let (old, m) := (s.managers k).putBucket w
    some ((s.setManager k m).point i (.put old)
      |>.setCall i (if old.isSome then .ret (.put old) else .storeIndex k w))
  | .storeIndex k w => some ({ s with idx := storeIndex s.idx w }.setCall i (.addSize k))
  | .addSize k => some ((s.setManager k ((s.managers k).addSize 1)).setCall i (.ret (.put none)))
  | .deleteIndex k wid =>
    some ({ s with idx := deleteIndex s.idx wid }.setCall i (.deleteBucket k wid))
  | .deleteBucket k wid =>
    some ((s.setManager k ((s.managers k).delBucket wid)).point i .del |>.setCall i (.subSize k))
  | .subSize k => some ((s.setManager k ((s.managers k).addSize (-1))).setCall i (.ret .del))
  | .loadBucket k wid =>
    let w := (s.managers k).worker wid
    some ((s.point i (.worker w)).setCall i (.ret (.worker w)))
  | .loadIndex k uid =>
    match s.idx.load (.int64 uid) with
    | none => some (s.setCall i (.found uid none))
    | some wid => some (s.setCall i (.lookUp k uid wid))
  | .lookUp k uid wid => some (s.setCall i (.found uid ((s.managers k).worker wid)))
  | .ret res => some ({ s with hist := s.hist.respond i }.setCall i (.returned res))
  | .idle => none
  | .returned _ => none
  | .found _ _ => none

def step (s : RegistryRun) : RegistryAct → Option RegistryRun
  | .put i k w => s.beginCall i (.put k w) (.loadOrStore k w)
  | .del i k wid => s.beginCall i (.del k wid) (.deleteIndex k wid)
  | .worker i k wid => s.beginCall i (.worker k wid) (.loadBucket k wid)
  | .getByUID i k uid =>
    match s.calls i with
    | .idle => some (s.setCall i (.loadIndex k uid))
    | _ => none
  | .step i => s.callStep i

/-- The managers as maps. -/
def registered (s : RegistryRun) : Registered := fun k => (s.managers k).worker

/-! ## The maps -/

theorem registered_setManager (s : RegistryRun) (k : Nat) (m : WorkerManager) :
    (s.setManager k m).registered = Function.update s.registered k m.worker := by
  funext j
  change (Function.update s.managers k m j).worker = _
  by_cases hj : j = k
  · subst hj
    rw [Function.update_self, Function.update_self]
  · rw [Function.update_of_ne hj, Function.update_of_ne hj]
    rfl

theorem registered_putBucket (s : RegistryRun) (k : Nat) (w : Worker) :
    (s.setManager k ((s.managers k).putBucket w).2).registered =
      (callSpec s.registered (.put k w)).2 := by
  rw [registered_setManager]
  refine congrArg (Function.update s.registered k) (funext fun wid => ?_)
  rw [WorkerManager.worker_putBucket, Function.update_apply]
  rfl

theorem registered_delBucket (s : RegistryRun) (k : Nat) (wid : UInt64) :
    (s.setManager k ((s.managers k).delBucket wid)).registered =
      (callSpec s.registered (.del k wid)).2 := by
  rw [registered_setManager]
  refine congrArg (Function.update s.registered k) (funext fun wid' => ?_)
  rw [WorkerManager.worker_delBucket, Function.update_apply]
  rfl

/-- The size is not part of the maps. -/
theorem registered_addSize (s : RegistryRun) (k : Nat) (delta : Int64) :
    (s.setManager k ((s.managers k).addSize delta)).registered = s.registered := by
  rw [registered_setManager]
  exact Function.update_eq_self k s.registered

/-! ## Points -/

/-- What the history knows of a call. -/
def Matches : RegistryPc → Status CallOp CallRes → Prop
  | .loadOrStore k w, st => ∃ b, st = .invoked (.put k w) b
  | .storeIndex k w, st => ∃ b, st = .decided (.put k w) (.put none) b
  | .addSize k, st => ∃ w b, st = .decided (.put k w) (.put none) b
  | .deleteIndex k wid, st => ∃ b, st = .invoked (.del k wid) b
  | .deleteBucket k wid, st => ∃ b, st = .invoked (.del k wid) b
  | .subSize k, st => ∃ wid b, st = .decided (.del k wid) .del b
  | .loadBucket k wid, st => ∃ b, st = .invoked (.worker k wid) b
  | .ret res, st => ∃ op b, st = .decided op res b
  | .returned res, st => ∃ op b e, st = .returned op res b e
  -- `GetByUID` is not in the history
  | .idle, st => st = .idle
  | .loadIndex _ _, st => st = .idle
  | .lookUp _ _ _, st => st = .idle
  | .found _ _, st => st = .idle

/-- The history explains the maps and knows where the calls are. -/
structure Explained (s : RegistryRun) : Prop where
  linear : Linear callSpec (fun _ _ => none) s.hist s.registered
  calls : ∀ i, Matches (s.calls i) (s.hist.status i)

theorem explained_init (confs : Nat → BucketConf) : (init confs).Explained where
  linear := by
    have hnone : (init confs).registered = fun _ _ => none :=
      funext fun k => funext fun wid => WorkerManager.worker_newWorkerManager (confs k) wid
    rw [hnone]
    exact Linear.init
  calls _ := rfl

/-- One call goes on; what the history knows of the others is what it knew. -/
theorem Explained.setCall {s s' : RegistryRun} (h : s.Explained) {i : Nat} {pc : RegistryPc}
    (hlinear : Linear callSpec (fun _ _ => none) s'.hist s'.registered)
    (hcalls : s'.calls = s.calls) (hothers : ∀ j, j ≠ i → s'.hist.status j = s.hist.status j)
    (hpc : Matches pc (s'.hist.status i)) : (s'.setCall i pc).Explained where
  linear := hlinear
  calls j := by
    change Matches (Function.update s'.calls i pc j) (s'.hist.status j)
    by_cases hj : j = i
    · subst hj
      rwa [Function.update_self]
    · rw [Function.update_of_ne hj, hcalls, hothers j hj]
      exact h.calls j

/-- A step that the history does not see. -/
theorem Explained.quiet {s s' : RegistryRun} (h : s.Explained) {i : Nat} {pc : RegistryPc}
    (hhist : s'.hist = s.hist) (hcalls : s'.calls = s.calls)
    (hregistered : s'.registered = s.registered) (hpc : Matches pc (s.hist.status i)) :
    (s'.setCall i pc).Explained := by
  refine h.setCall ?_ hcalls (fun j _ => by rw [hhist]) (by rwa [hhist])
  rw [hhist, hregistered]
  exact h.linear

/-- **A call takes effect on its bucket.** -/
theorem Explained.point {s s' : RegistryRun} (h : s.Explained) {i : Nat} {op : CallOp} {b : Nat}
    {res : CallRes} {pc : RegistryPc} (hst : s.hist.status i = .invoked op b)
    (hhist : s'.hist = s.hist) (hcalls : s'.calls = s.calls)
    (hres : (callSpec s.registered op).1 = res)
    (hregistered : s'.registered = (callSpec s.registered op).2)
    (hpc : Matches pc (.decided op res b)) : ((s'.point i res).setCall i pc).Explained := by
  have hpoint : (s'.point i res).hist =
      { points := s.hist.points ++ [(i, op, res)]
        status := Function.update s.hist.status i (.decided op res b) } := by
    change s'.hist.point i res = _
    rw [hhist]
    exact History.point_of_invoked hst
  refine h.setCall ?_ hcalls (fun j hj => ?_) ?_
  · change Linear _ _ (s'.hist.point i res) s'.registered
    rw [hhist, hregistered, ← hres]
    exact h.linear.point hst
  · rw [hpoint]
    exact Function.update_of_ne hj ..
  · rw [hpoint]
    change Matches pc (Function.update s.hist.status i _ i)
    rwa [Function.update_self]

theorem Explained.beginCall {s s' : RegistryRun} (h : s.Explained) {i : Nat} {op : CallOp}
    {pc : RegistryPc} (hs : s.beginCall i op pc = some s')
    (hpc : ∀ b, Matches pc (.invoked op b)) : s'.Explained := by
  unfold RegistryRun.beginCall at hs
  split at hs
  · next hidle =>
    cases hs
    have hst : s.hist.status i = .idle := by have := h.calls i; rwa [hidle] at this
    refine h.setCall (h.linear.invoke hst op) rfl (fun j hj => Function.update_of_ne hj ..) ?_
    change Matches pc (Function.update s.hist.status i _ i)
    rw [Function.update_self]
    exact hpc _
  · cases hs

theorem Explained.callStep {s s' : RegistryRun} (h : s.Explained) {i : Nat}
    (hs : s.callStep i = some s') : s'.Explained := by
  have hi := h.calls i
  unfold RegistryRun.callStep at hs
  split at hs
  · next k w hpc =>
    rw [hpc] at hi
    obtain ⟨b, hst⟩ := hi
    cases hs
    have hold : ((s.managers k).putBucket w).1 = s.registered k w.id :=
      WorkerManager.putBucket_fst ..
    refine h.point hst rfl rfl (congrArg CallRes.put hold.symm) (registered_putBucket s k w) ?_
    split
    · exact ⟨_, b, rfl⟩
    · next hnone =>
      rw [Option.not_isSome_iff_eq_none.mp hnone]
      exact ⟨b, rfl⟩
  · next k w hpc =>
    rw [hpc] at hi
    obtain ⟨b, hst⟩ := hi
    cases hs
    exact h.quiet rfl rfl rfl ⟨w, b, hst⟩
  · next k hpc =>
    rw [hpc] at hi
    obtain ⟨w, b, hst⟩ := hi
    cases hs
    exact h.quiet rfl rfl (registered_addSize s k 1) ⟨_, b, hst⟩
  · next k wid hpc =>
    rw [hpc] at hi
    cases hs
    exact h.quiet rfl rfl rfl hi
  · next k wid hpc =>
    rw [hpc] at hi
    obtain ⟨b, hst⟩ := hi
    cases hs
    exact h.point hst rfl rfl rfl (registered_delBucket s k wid) ⟨wid, b, rfl⟩
  · next k hpc =>
    rw [hpc] at hi
    obtain ⟨wid, b, hst⟩ := hi
    cases hs
    exact h.quiet rfl rfl (registered_addSize s k (-1)) ⟨_, b, hst⟩
  · next k wid hpc =>
    rw [hpc] at hi
    obtain ⟨b, hst⟩ := hi
    cases hs
    exact h.point hst rfl rfl rfl rfl ⟨_, b, rfl⟩
  · next k uid hpc =>
    rw [hpc] at hi
    split at hs
    · cases hs; exact h.quiet rfl rfl rfl hi
    · cases hs; exact h.quiet rfl rfl rfl hi
  · next k uid wid hpc =>
    rw [hpc] at hi
    cases hs
    exact h.quiet rfl rfl rfl hi
  · next res hpc =>
    rw [hpc] at hi
    obtain ⟨op, b, hst⟩ := hi
    cases hs
    have hresp := History.respond_of_decided hst
    refine h.setCall (h.linear.respond hst) rfl (fun j hj => ?_) ?_
    · rw [hresp]
      exact Function.update_of_ne hj ..
    · rw [hresp]
      change Matches _ (Function.update s.hist.status i _ i)
      rw [Function.update_self]
      exact ⟨op, b, _, rfl⟩
  · cases hs
  · cases hs
  · cases hs

theorem Explained.step {s s' : RegistryRun} (h : s.Explained) {a : RegistryAct}
    (hs : s.step a = some s') : s'.Explained := by
  cases a with
  | put i k w => exact h.beginCall hs fun b => ⟨b, rfl⟩
  | del i k wid => exact h.beginCall hs fun b => ⟨b, rfl⟩
  | worker i k wid => exact h.beginCall hs fun b => ⟨b, rfl⟩
  | getByUID i k uid =>
    simp only [RegistryRun.step] at hs
    split at hs
    · next hidle =>
      have hi := h.calls i
      rw [hidle] at hi
      cases hs
      exact h.quiet rfl rfl rfl hi
    · cases hs
  | step i => exact h.callStep hs

/-- The calls that have returned can be put one after the other. -/
structure Linearizable (s : RegistryRun) : Prop where
  /-- in this order, one after the other, they have these results and lead to these maps -/
  replays : Replays callSpec (fun _ _ => none) s.hist.points s.registered
  /-- none takes effect twice -/
  once : (s.hist.points.map Prod.fst).Nodup
  /-- each takes effect between its beginning and its return, with the result that it returns -/
  returned : ∀ i res, s.calls i = .returned res → ∃ op b e,
    s.hist.status i = .returned op res b e ∧ Between s.hist.points i op res b e
  /-- the order is that of real time -/
  order : ∀ i j op op' res res' b e b' e', s.hist.status i = .returned op res b e →
    s.hist.status j = .returned op' res' b' e' → e ≤ b' → ∃ m n : Nat, m < n ∧
      s.hist.points[m]? = some (i, op, res) ∧ s.hist.points[n]? = some (j, op', res')

theorem Explained.linearizable {s : RegistryRun} (h : s.Explained) : s.Linearizable := by
  have hbetween : ∀ {i op res b e}, s.hist.status i = .returned op res b e →
      Between s.hist.points i op res b e := by
    intro i op res b e hst
    have hfits := h.linear.fits i
    rwa [hst] at hfits
  refine ⟨h.linear.replays, h.linear.nodup, ?_, ?_⟩
  · intro i res hi
    have hcall := h.calls i
    rw [hi] at hcall
    obtain ⟨op, b, e, hst⟩ := hcall
    exact ⟨op, b, e, hst, hbetween hst⟩
  · intro i j op op' res res' b e b' e' hi hj hle
    exact Linear.before (hbetween hi) (hbetween hj) hle

/--
**The registry is linearizable.** However the operations of concurrent `Put`, `Del`, `Worker` and
`GetByUID` calls on any number of managers interleave: the calls of `Put`, `Del` and `Worker` that
have returned have the results, and the buckets hold what they would hold, if the calls had been
made one after the other on one map for each manager, in an order in which no call comes before one
that had returned when it began.
-/
theorem registry_linearizable (confs : Nat → BucketConf) (acts : List RegistryAct) :
    EachState step Linearizable (init confs) acts :=
  eachState_of_remaining (I := fun s _ => s.Explained) (fun _ _ _ _ h hs => h.step hs)
    (fun _ _ h => h.linearizable) (explained_init confs)

/-! ## Lookups -/

/-- `P` holds of the worker that a call puts, or a worker with `P` is what it looks up. -/
def Carries (P : Worker → Prop) : RegistryPc → Prop
  | .loadOrStore _ w => P w
  | .storeIndex _ w => P w
  | .lookUp _ uid wid => ∃ w, P w ∧ w.uid = uid ∧ w.id = wid
  | .found uid (some w) => w.uid = uid
  | _ => True

/-- Everything that is stored comes from workers with `P`. -/
structure Known (P : Worker → Prop) (s : RegistryRun) : Prop where
  registered : ∀ k wid w, s.registered k wid = some w → P w ∧ w.id = wid
  idx : ∀ uid wid, s.idx.load (.int64 uid) = some wid → ∃ w, P w ∧ w.uid = uid ∧ w.id = wid
  calls : ∀ i, Carries P (s.calls i)

theorem known_init (P : Worker → Prop) (confs : Nat → BucketConf) : Known P (init confs) where
  registered k wid w hw := by
    change (newWorkerManager (confs k)).worker wid = some w at hw
    rw [WorkerManager.worker_newWorkerManager] at hw
    cases hw
  idx uid wid h := by
    change SyncMap.empty.load (Key.int64 uid) = some wid at h
    rw [SyncMap.load_empty] at h
    cases h
  calls _ := trivial

theorem Known.setCall {P : Worker → Prop} {s s' : RegistryRun} (h : Known P s) {i : Nat}
    {pc : RegistryPc}
    (hregistered : ∀ k wid w, s'.registered k wid = some w → P w ∧ w.id = wid)
    (hidx : ∀ uid wid, s'.idx.load (.int64 uid) = some wid →
      ∃ w, P w ∧ w.uid = uid ∧ w.id = wid)
    (hcalls : s'.calls = s.calls) (hpc : Carries P pc) : Known P (s'.setCall i pc) where
  registered := hregistered
  idx := hidx
  calls j := by
    change Carries P (Function.update s'.calls i pc j)
    by_cases hj : j = i
    · subst hj
      rwa [Function.update_self]
    · rw [Function.update_of_ne hj, hcalls]
      exact h.calls j

/-- `LoadOrStore` registers the worker of the call or what was there before. -/
theorem Known.put {P : Worker → Prop} {s : RegistryRun} (h : Known P s) {k : Nat} {w : Worker}
    (hw : P w) (j : Nat) (wid : UInt64) (w' : Worker)
    (hw' : (callSpec s.registered (.put k w)).2 j wid = some w') : P w' ∧ w'.id = wid := by
  change Function.update s.registered k (Function.update (s.registered k) w.id _) j wid = _ at hw'
  by_cases hj : j = k
  · subst hj
    rw [Function.update_self] at hw'
    by_cases hwid : wid = w.id
    · subst hwid
      rw [Function.update_self] at hw'
      cases hold : s.registered j w.id with
      | none =>
        rw [hold] at hw'
        cases hw'
        exact ⟨hw, rfl⟩
      | some old =>
        rw [hold] at hw'
        cases hw'
        exact h.registered j w.id old hold
    · rw [Function.update_of_ne hwid] at hw'
      exact h.registered j wid w' hw'
  · rw [Function.update_of_ne hj] at hw'
    exact h.registered j wid w' hw'

theorem Known.del {P : Worker → Prop} {s : RegistryRun} (h : Known P s) {k : Nat} {wid : UInt64}
    (j : Nat) (wid' : UInt64) (w : Worker)
    (hw : (callSpec s.registered (.del k wid)).2 j wid' = some w) : P w ∧ w.id = wid' := by
  change Function.update s.registered k (Function.update (s.registered k) wid none) j wid' = _ at hw
  by_cases hj : j = k
  · subst hj
    rw [Function.update_self] at hw
    by_cases hwid : wid' = wid
    · subst hwid
      rw [Function.update_self] at hw
      cases hw
    · rw [Function.update_of_ne hwid] at hw
      exact h.registered j wid' w hw
  · rw [Function.update_of_ne hj] at hw
    exact h.registered j wid' w hw

theorem Known.callStep {P : Worker → Prop}
    (hP : ∀ w w', P w → P w' → w.id = w'.id → w.uid = w'.uid) {s s' : RegistryRun}
    (h : Known P s) {i : Nat} (hs : s.callStep i = some s') : Known P s' := by
  have hi := h.calls i
  unfold RegistryRun.callStep at hs
  split at hs
  · next k w hpc =>
    rw [hpc] at hi
    cases hs
    refine h.setCall ?_ h.idx rfl ?_
    · intro j wid w' hw'
      change (s.setManager k ((s.managers k).putBucket w).2).registered j wid = some w' at hw'
      rw [registered_putBucket] at hw'
      exact h.put hi j wid w' hw'
    · split
      · trivial
      · exact hi
  · next k w hpc =>
    rw [hpc] at hi
    cases hs
    refine h.setCall h.registered ?_ rfl trivial
    intro uid wid hload
    change (storeIndex s.idx w).load (.int64 uid) = some wid at hload
    rw [load_storeIndex] at hload
    split at hload
    · next huid =>
      cases hload
      exact ⟨w, hi, (Key.int64.inj huid).symm, rfl⟩
    · exact h.idx uid wid hload
  · next k hpc =>
    cases hs
    refine h.setCall ?_ h.idx rfl trivial
    rw [registered_addSize]
    exact h.registered
  · next k wid hpc =>
    cases hs
    refine h.setCall h.registered ?_ rfl trivial
    intro uid wid' hload
    change (deleteIndex s.idx wid).load (.int64 uid) = some wid' at hload
    rw [load_deleteIndex_int64] at hload
    exact h.idx uid wid' hload
  · next k wid hpc =>
    cases hs
    refine h.setCall ?_ h.idx rfl trivial
    intro j wid' w hw
    change (s.setManager k ((s.managers k).delBucket wid)).registered j wid' = some w at hw
    rw [registered_delBucket] at hw
    exact h.del j wid' w hw
  · next k hpc =>
    cases hs
    refine h.setCall ?_ h.idx rfl trivial
    rw [registered_addSize]
    exact h.registered
  · cases hs; exact h.setCall h.registered h.idx rfl trivial
  · next k uid hpc =>
    split at hs
    · cases hs; exact h.setCall h.registered h.idx rfl trivial
    · next wid hload => cases hs; exact h.setCall h.registered h.idx rfl (h.idx uid wid hload)
  · next k uid wid hpc =>
    rw [hpc] at hi
    obtain ⟨w, hw, huid, hwid⟩ := hi
    cases hs
    refine h.setCall h.registered h.idx rfl ?_
    cases hfound : (s.managers k).worker wid with
    | none => trivial
    | some w' =>
      -- the worker id leads back to the user
      obtain ⟨hw', hwid'⟩ := h.registered k wid w' hfound
      exact (hP w' w hw' hw (hwid'.trans hwid.symm)).trans huid
  · cases hs; exact h.setCall h.registered h.idx rfl trivial
  · cases hs
  · cases hs
  · cases hs

/-- The workers that the calls to come put have `P`. -/
def PutsOnly (P : Worker → Prop) (acts : List RegistryAct) : Prop :=
  ∀ i k w, .put i k w ∈ acts → P w

theorem Known.step {P : Worker → Prop}
    (hP : ∀ w w', P w → P w' → w.id = w'.id → w.uid = w'.uid) {s s' : RegistryRun}
    (h : Known P s) {a : RegistryAct} {acts : List RegistryAct} (hputs : PutsOnly P (a :: acts))
    (hs : s.step a = some s') : Known P s' := by
  cases a with
  | put i k w =>
    simp only [RegistryRun.step, beginCall] at hs
    split at hs
    · cases hs
      exact h.setCall h.registered h.idx rfl (hputs i k w List.mem_cons_self)
    · cases hs
  | del i k wid =>
    simp only [RegistryRun.step, beginCall] at hs
    split at hs
    · cases hs; exact h.setCall h.registered h.idx rfl trivial
    · cases hs
  | worker i k wid =>
    simp only [RegistryRun.step, beginCall] at hs
    split at hs
    · cases hs; exact h.setCall h.registered h.idx rfl trivial
    · cases hs
  | getByUID i k uid =>
    simp only [RegistryRun.step] at hs
    split at hs
    · cases hs; exact h.setCall h.registered h.idx rfl trivial
    · cases hs
  | step i => exact h.callStep hP hs

/-- `GetByUID` has returned nothing or a worker of the user. -/
def FindsOwn (s : RegistryRun) : Prop := ∀ i uid w, s.calls i = .found uid (some w) → w.uid = uid

/-- The puts of a run give no worker id to two users. -/
def IdsOfOneUser (acts : List RegistryAct) : Prop :=
  ∀ i k w i' k' w', .put i k w ∈ acts → .put i' k' w' ∈ acts → w.id = w'.id → w.uid = w'.uid

/--
**`GetByUID` finds no worker of another user**, whatever happens between its two loads, as long as
no worker id belongs to two users. The index may point to a worker that is gone or that is
registered with another manager; then nothing is found.
-/
theorem getByUID_finds_own (confs : Nat → BucketConf) (acts : List RegistryAct)
    (hids : IdsOfOneUser acts) : EachState step FindsOwn (init confs) acts := by
  let P : Worker → Prop := fun w => ∃ i k, RegistryAct.put i k w ∈ acts
  have hP : ∀ w w', P w → P w' → w.id = w'.id → w.uid = w'.uid := by
    rintro w w' ⟨i, k, hw⟩ ⟨i', k', hw'⟩ hid
    exact hids i k w i' k' w' hw hw' hid
  refine eachState_of_remaining (I := fun s as => Known P s ∧ PutsOnly P as) ?_ ?_
    ⟨known_init P confs, fun i k w hw => ⟨i, k, hw⟩⟩
  · rintro s a s' as ⟨h, hputs⟩ hs
    exact ⟨h.step hP hputs hs, fun i k w hw => hputs i k w (List.mem_cons_of_mem a hw)⟩
  · rintro s _ ⟨h, _⟩ i uid w hi
    have hcall := h.calls i
    rwa [hi] at hcall

/-- Between the two loads of a lookup the worker goes and one of another user comes. -/
def racingLookup : List RegistryAct :=
  [.put 0 0 ⟨1, 16, some { uid := 7 }⟩, .step 0, .step 0, .getByUID 1 0 7, .step 1, .del 2 0 16,
    .step 2, .step 2, .put 3 0 ⟨2, 32, some { uid := 8 }⟩, .step 3, .step 3, .step 1]

theorem racingLookup_finds_own : IdsOfOneUser racingLookup ∧
    EachState step FindsOwn (init fun _ => ⟨128, by decide⟩) racingLookup := by
  have hids : IdsOfOneUser racingLookup := by
    intro i k w i' k' w' hw hw' hid
    simp only [racingLookup, List.mem_cons, RegistryAct.put.injEq, reduceCtorEq, false_or,
      List.not_mem_nil, or_false] at hw hw'
    rcases hw with ⟨_, _, rfl⟩ | ⟨_, _, rfl⟩ <;> rcases hw' with ⟨_, _, rfl⟩ | ⟨_, _, rfl⟩
    · rfl
    · exact absurd hid (by decide)
    · exact absurd hid (by decide)
    · rfl
  exact ⟨hids, getByUID_finds_own _ racingLookup hids⟩

end RegistryRun

end FabricaNet.Internal
