import FabricaNet.Internal.BaseServer

/-!
# What `Stop` leaves behind

`BaseServer.Stop` stops the workers that its one `Walk` over the buckets comes upon. `addWorker`
does not look at `OnStopping`, so a connection that is still in its handshake when the walk has
passed its bucket registers a worker that nobody stops. This module shows that there is no other
way: when no worker is stored in a bucket whose `Range` has been called, every worker that is
registered after `Stop` has returned is stopped.

The argument is about the buckets, the walk and the two lists of workers only. `Sweep` is that part
of the server, `SweepStep` what the steps of the server do to it, and `Swept` the invariant.
-/

namespace FabricaNet.Internal

open Go Lib Xnet

namespace ServerRun

/-- Once `Stop` has returned, every registered worker is stopped. -/
def NoLiveWorker (s : ServerRun) : Prop :=
  s.stop = .returned → ∀ wid w, s.server.manager.worker wid = some w → w.ref ∈ s.stopped

/-- The action stores a worker in a bucket whose `Range` has been called. -/
def latePut (s : ServerRun) : ServerAct → Bool
  | .work i true =>
    match s.conns[i]? with
    | some ⟨w, .put⟩ =>
      (s.server.manager.worker w.id).isNone && s.stop.begun (s.server.manager.bucketIdx w.id)
    | _ => false
  | _ => false

end ServerRun

/-! ## The sweep -/

/-- The part of a server that the walk of `Stop` is about. -/
structure Sweep where
  manager : WorkerManager
  stop : ServerStopPc
  stopped : List Nat
  stopCalls : List Nat

def ServerRun.sweep (s : ServerRun) : Sweep where
  manager := s.server.manager
  stop := s.stop
  stopped := s.stopped
  stopCalls := s.stopCalls

/-- What the steps of a server without late stores do to its sweep. -/
inductive SweepStep (v : Sweep) : Sweep → Prop
  | stay : SweepStep v v
  | stopWorker (ref : Nat) : SweepStep v { v with stopped := ref :: v.stopped }
  | callStop (ref : Nat) : SweepStep v { v with
      stopped := ref :: v.stopped
      stopCalls := v.stopCalls.erase ref }
  | put {w : Worker} (free : v.manager.worker w.id = none)
      (early : v.stop.begun (v.manager.bucketIdx w.id) = false) :
      SweepStep v { v with manager := (v.manager.putBucket w).2 }
  | putTaken {w ow : Worker} (taken : v.manager.worker w.id = some ow) :
      SweepStep v { v with manager := (v.manager.putBucket w).2 }
  | del (wid : UInt64) : SweepStep v { v with
      manager := v.manager.delBucket wid
      stop := v.stop.deleted wid (v.manager.bucketIdx wid) }
  | turnOff : SweepStep v { v with stop := .walk 0 }
  | range {j : Nat} {b : SyncMap UInt64 Worker} (pc : v.stop = .walk j)
      (bucket : v.manager.buckets[j]? = some b) :
      SweepStep v { v with stop := .range j (Ranging.start b) }
  | walked {j : Nat} (pc : v.stop = .walk j) (last : v.manager.buckets[j]? = none) :
      SweepStep v { v with stop := .wait }
  | visit {j : Nat} {r r' : Ranging UInt64 Worker} {wid : UInt64} {w : Worker}
      (pc : v.stop = .range j r) (visit : r.visit wid w = some r') :
      SweepStep v { v with stop := .range j r', stopCalls := w.ref :: v.stopCalls }
  | endRange {j : Nat} {r : Ranging UInt64 Worker} (pc : v.stop = .range j r)
      (finished : r.finished = true) : SweepStep v { v with stop := .walk (j + 1) }
  | waited (pc : v.stop = .wait) (stopCalls : v.stopCalls = []) :
      SweepStep v { v with stop := .stopListener }
  | closed (pc : v.stop = .stopListener) : SweepStep v { v with stop := .returned }

namespace Sweep

variable {v v' : Sweep} {wid : UInt64} {w : Worker}

/-- The worker is stopped, or a goroutine of `Stop` is about to stop it. -/
def Handled (v : Sweep) (w : Worker) : Prop := w.ref ∈ v.stopped ∨ w.ref ∈ v.stopCalls

/-- How far the walk has dealt with a registered worker. -/
def Accounted (v : Sweep) (wid : UInt64) (w : Worker) : Prop :=
  match v.stop with
  | .notCalled => True
  | .walk j => (v.manager.bucketIdx wid : Nat) < j → v.Handled w
  | .range j r =>
    ((v.manager.bucketIdx wid : Nat) < j → v.Handled w) ∧
      ((v.manager.bucketIdx wid : Nat) = j → r.Due v.Handled wid w)
  | .wait => v.Handled w
  | .stopListener | .returned => w.ref ∈ v.stopped

/-- Every registered worker is dealt with as far as the walk has come. -/
def Swept (v : Sweep) : Prop := ∀ wid w, v.manager.worker wid = some w → v.Accounted wid w

/-- More stopped workers and more goroutines change nothing. -/
theorem Accounted.mono {stopped stopCalls : List Nat} (h : v.Accounted wid w)
    (hstopped : ∀ ref ∈ v.stopped, ref ∈ stopped)
    (hcalls : ∀ ref ∈ v.stopCalls, ref ∈ stopped ∨ ref ∈ stopCalls) :
    Accounted { v with stopped := stopped, stopCalls := stopCalls } wid w := by
  have hhandled : ∀ w, v.Handled w →
      Handled { v with stopped := stopped, stopCalls := stopCalls } w := fun w hw =>
    hw.elim (fun hs => Or.inl (hstopped _ hs)) (hcalls _)
  unfold Accounted at h ⊢
  cases hpc : v.stop with
  | notCalled => trivial
  | walk j => rw [hpc] at h; exact fun hj => hhandled w (h hj)
  | range j r =>
    rw [hpc] at h
    exact ⟨fun hj => hhandled w (h.1 hj), fun hj => (h.2 hj).mono hhandled⟩
  | wait => rw [hpc] at h; exact hhandled w h
  | stopListener => rw [hpc] at h; exact hstopped _ h
  | returned => rw [hpc] at h; exact hstopped _ h

/-- A worker in a bucket that the walk has not come to is accounted for. -/
theorem accounted_of_not_begun (h : v.stop.begun (v.manager.bucketIdx wid) = false) :
    v.Accounted wid w := by
  unfold Accounted
  cases hpc : v.stop with
  | notCalled => trivial
  | walk j =>
    rw [hpc] at h
    exact fun hj => absurd hj (of_decide_eq_false h)
  | range j r =>
    rw [hpc] at h
    have hlt : ¬ (v.manager.bucketIdx wid : Nat) ≤ j := of_decide_eq_false h
    exact ⟨fun hj => absurd (Nat.le_of_lt hj) hlt, fun hj => absurd (Nat.le_of_eq hj) hlt⟩
  | wait | stopListener | returned => rw [hpc] at h; cases h

theorem Accounted.deleted {wid' : UInt64} (h : v.Accounted wid w) (hne : wid ≠ wid') :
    Accounted { v with
      manager := v.manager.delBucket wid'
      stop := v.stop.deleted wid' (v.manager.bucketIdx wid') } wid w := by
  unfold Accounted at h ⊢
  cases hpc : v.stop with
  | range j r =>
    rw [hpc] at h
    -- `Range` hears of the deletion only when it is in this bucket
    by_cases hj : j = v.manager.bucketIdx wid'
    · simp only [ServerStopPc.deleted, if_pos hj]
      exact ⟨h.1, fun hidx => (h.2 hidx).deleted hne⟩
    · simp only [ServerStopPc.deleted, if_neg hj]
      exact h
  | notCalled | walk j | wait | stopListener | returned => rw [hpc] at h; exact h

/-- The bucket of a registered worker holds it. -/
theorem load_of_bucket {b : SyncMap UInt64 Worker} (h : v.manager.worker wid = some w)
    (hb : v.manager.buckets[(v.manager.bucketIdx wid : Nat)]? = some b) :
    b.load wid = some w := by
  have hget : v.manager.getBucket wid = b := by
    rw [Vector.getElem?_eq_getElem (v.manager.bucketIdx wid).isLt] at hb
    exact Option.some.inj hb
  rw [← hget]
  exact h

theorem Swept.put {w' : Worker} (h : Swept v)
    (early : v.stop.begun (v.manager.bucketIdx w'.id) = false)
    (free : v.manager.worker w'.id = none) :
    Swept { v with manager := (v.manager.putBucket w').2 } := by
  intro wid w hw
  simp only [WorkerManager.worker_putBucket, free] at hw
  split at hw
  · next hwid =>
    -- the new entry is in a bucket that the walk comes to later
    subst hwid
    exact accounted_of_not_begun early
  · exact h wid w hw

/-- A `Put` that finds a worker leaves the registry as it is. -/
theorem Swept.putTaken {w' ow : Worker} (h : Swept v) (taken : v.manager.worker w'.id = some ow) :
    Swept { v with manager := (v.manager.putBucket w').2 } := by
  intro wid w hw
  simp only [WorkerManager.worker_putBucket, taken] at hw
  split at hw
  · next hwid =>
    subst hwid
    exact h w'.id w (taken.trans hw)
  · exact h wid w hw

theorem Swept.del (h : Swept v) (wid' : UInt64) :
    Swept { v with
      manager := v.manager.delBucket wid'
      stop := v.stop.deleted wid' (v.manager.bucketIdx wid') } := by
  intro wid w hw
  simp only [WorkerManager.worker_delBucket] at hw
  split at hw
  · cases hw
  · next hne => exact (h wid w hw).deleted hne

/-- The call of `Range`: what is in the bucket is due. -/
theorem Swept.range {j : Nat} {b : SyncMap UInt64 Worker} (h : Swept v) (pc : v.stop = .walk j)
    (bucket : v.manager.buckets[j]? = some b) :
    Swept { v with stop := .range j (Ranging.start b) } := by
  intro wid w hw
  have hacc := h wid w hw
  simp only [Accounted, pc] at hacc
  refine ⟨hacc, fun hidx => Ranging.due_start (load_of_bucket hw ?_)⟩
  rw [← bucket]
  exact congrArg _ hidx

/-- Behind the last bucket every worker is handled, since each is in some bucket. -/
theorem Swept.walked {j : Nat} (h : Swept v) (pc : v.stop = .walk j)
    (last : v.manager.buckets[j]? = none) : Swept { v with stop := .wait } := by
  intro wid w hw
  have hacc := h wid w hw
  simp only [Accounted, pc] at hacc
  refine hacc (Nat.lt_of_lt_of_le (v.manager.bucketIdx wid).isLt ?_)
  exact Vector.getElem?_eq_none_iff.mp last

theorem Swept.visit {j : Nat} {r r' : Ranging UInt64 Worker} {wid' : UInt64} {w' : Worker}
    (h : Swept v) (pc : v.stop = .range j r) (visit : r.visit wid' w' = some r') :
    Swept { v with stop := .range j r', stopCalls := w'.ref :: v.stopCalls } := by
  intro wid w hw
  have hacc := h wid w hw
  simp only [Accounted, pc] at hacc
  have hhandled : ∀ w, v.Handled w →
      Handled { v with stop := .range j r', stopCalls := w'.ref :: v.stopCalls } w := by
    rintro w (hs | hc)
    · exact Or.inl hs
    · exact Or.inr (List.mem_cons_of_mem _ hc)
  exact ⟨fun hj => hhandled w (hacc.1 hj),
    fun hj => (hacc.2 hj).visit visit hhandled (Or.inr List.mem_cons_self)⟩

/-- The end of `Range`: the workers of the bucket join those of the buckets before it. -/
theorem Swept.endRange {j : Nat} {r : Ranging UInt64 Worker} (h : Swept v)
    (pc : v.stop = .range j r) (finished : r.finished = true) :
    Swept { v with stop := .walk (j + 1) } := by
  intro wid w hw hj
  have hacc := h wid w hw
  simp only [Accounted, pc] at hacc
  rcases Nat.lt_succ_iff_lt_or_eq.mp hj with hlt | heq
  · exact hacc.1 hlt
  · exact (hacc.2 heq).done finished

theorem Swept.waited (h : Swept v) (pc : v.stop = .wait) (stopCalls : v.stopCalls = []) :
    Swept { v with stop := .stopListener } := by
  intro wid w hw
  have hacc := h wid w hw
  simp only [Accounted, pc] at hacc
  rcases hacc with hs | hc
  · exact hs
  · rw [stopCalls] at hc
    exact absurd hc List.not_mem_nil

/-- **One step keeps every registered worker accounted for.** -/
theorem Swept.step (h : Swept v) (hs : SweepStep v v') : Swept v' := by
  cases hs with
  | stay => exact h
  | stopWorker ref =>
    intro wid w hw
    exact (h wid w hw).mono (fun _ => List.mem_cons_of_mem ref) fun _ hr => Or.inr hr
  | callStop ref =>
    intro wid w hw
    refine (h wid w hw).mono (fun _ => List.mem_cons_of_mem ref) fun ref' hr => ?_
    by_cases heq : ref' = ref
    · exact Or.inl (heq ▸ List.mem_cons_self)
    · exact Or.inr ((List.mem_erase_of_ne heq).mpr hr)
  | put free early => exact h.put early free
  | putTaken taken => exact h.putTaken taken
  | del wid => exact h.del wid
  | turnOff => exact fun _ _ _ hj => absurd hj (Nat.not_lt_zero _)
  | range pc bucket => exact h.range pc bucket
  | walked pc last => exact h.walked pc last
  | visit pc visit => exact h.visit pc visit
  | endRange pc finished => exact h.endRange pc finished
  | waited pc stopCalls => exact h.waited pc stopCalls
  | closed pc =>
    intro wid w hw
    have hacc := h wid w hw
    simp only [Accounted, pc] at hacc
    exact hacc

end Sweep

/-! ## The server sweeps -/

namespace ServerRun

variable {s s' : ServerRun} {a : ServerAct}

theorem stored_of_not_begun {pc : ServerStopPc} {bucket : Nat} (w : Worker)
    (h : pc.begun bucket = false) : pc.stored w bucket = pc := by
  cases pc with
  | range j r =>
    have hne : j ≠ bucket := fun heq =>
      absurd (Nat.le_of_eq heq.symm) (of_decide_eq_false h)
    exact if_neg hne
  | notCalled | walk j | wait | stopListener | returned => rfl

theorem sweep_put (w : Worker) (hlate : s.server.manager.worker w.id = none →
    s.stop.begun (s.server.manager.bucketIdx w.id) = false) :
    SweepStep s.sweep (s.put w).2.sweep := by
  have hfst := s.server.manager.putBucket_fst w
  cases hw : s.server.manager.worker w.id with
  | none =>
    have hput : s.server.manager.putBucket w = (none, (s.server.manager.putBucket w).2) := by
      rw [← hw, ← hfst]
    unfold put
    rw [hput]
    simp only [sweep, stored_of_not_begun w (hlate hw)]
    exact .put hw (hlate hw)
  | some ow =>
    have hput : s.server.manager.putBucket w = (some ow, (s.server.manager.putBucket w).2) := by
      rw [← hw, ← hfst]
    unfold put
    rw [hput]
    exact .putTaken hw

theorem sweep_workStep {i : Nat} {c : Conn} {ok : Bool} (hc : s.conns[i]? = some c)
    (hlate : s.latePut (.work i ok) = false) (hs : s.workStep i c c.pc ok = some s') :
    SweepStep s.sweep s'.sweep := by
  obtain ⟨w, pc⟩ := c
  cases pc with
  | put =>
    cases ok with
    | false => cases hs
    | true =>
      have hstep := sweep_put (s := s) w fun hfree => by
        simpa [latePut, hc, hfree] using hlate
      simp only [workStep] at hs
      split at hs
      all_goals
        next hput =>
        cases hs
        rw [hput] at hstep
        exact hstep
  | stopOld ow => cases ok <;> cases hs <;> exact .stopWorker ow.ref
  | delWorker =>
    cases ok with
    | false => cases hs
    | true => cases hs; exact .del w.id
  | stop => cases ok <;> cases hs <;> exact .stopWorker w.ref
  | handshake | onConnected | afterConnect | run | afterDisconnect | returned =>
    cases ok <;> cases hs <;> exact .stay

theorem sweep_disconnectStep {k : Nat} {err : Option Err} {pc : DisconnectPc}
    (hs : s.disconnectStep k err pc = some s') : SweepStep s.sweep s'.sweep := by
  cases pc with
  | check wid =>
    simp only [disconnectStep] at hs
    split at hs <;> cases hs <;> exact .stay
  | lookup wid =>
    simp only [disconnectStep] at hs
    split at hs <;> cases hs <;> exact .stay
  | delWorker wid w => cases hs; exact .del wid
  | stop w => cases hs; exact .stopWorker w.ref
  | returned err => cases hs

theorem sweep_stopStep (hs : s.stopStep = some s') : SweepStep s.sweep s'.sweep := by
  unfold stopStep at hs
  split at hs
  · cases hs; exact .turnOff
  · next j hpc =>
    split at hs
    · next hlast => cases hs; exact .walked hpc hlast
    · next b hb => cases hs; exact .range hpc hb
  · next j r hpc =>
    obtain ⟨hfin, ⟨⟩⟩ := Option.ite_none_right_eq_some.mp hs
    exact .endRange hpc hfin
  · next hpc =>
    obtain ⟨⟨hcalls, -⟩, ⟨⟩⟩ := Option.ite_none_right_eq_some.mp hs
    exact .waited hpc hcalls
  · next hpc => cases hs; exact .closed hpc
  · cases hs

theorem sweep_acceptStep {k : Nat} {pc pc' : AcceptPc} (hs : s.acceptStep k pc pc' = some s') :
    s'.sweep = s.sweep := by
  obtain ⟨-, ⟨⟩⟩ := Option.ite_none_right_eq_some.mp hs
  rfl

/-- **Every step of a server, unless it is a late store, is a step of its sweep.** -/
theorem sweep_step (hlate : s.latePut a = false) (hs : s.step a = some s') :
    SweepStep s.sweep s'.sweep := by
  cases a with
  | acceptLoop k | acceptCtxDone k | acceptFailed k => exact sweep_acceptStep hs ▸ .stay
  | accept k ss =>
    obtain ⟨-, hacc⟩ := Option.ite_none_right_eq_some.mp hs
    rw [sweep_acceptStep hacc]
    exact .stay
  | work i ok =>
    simp only [step] at hs
    split at hs
    · cases hs
    · next c hc => exact sweep_workStep hc hlate hs
  | disconnect wid => cases hs; exact .stay
  | disconnectStep k err =>
    simp only [step] at hs
    split at hs
    · cases hs
    · exact sweep_disconnectStep hs
  | stopStep => exact sweep_stopStep hs
  | visit wid w =>
    simp only [step, visit] at hs
    split at hs
    · next j r hpc =>
      split at hs
      · cases hs
      · next r' hvisit => cases hs; exact .visit hpc hvisit
    · cases hs
  | stopWorker ref =>
    obtain ⟨-, ⟨⟩⟩ := Option.ite_none_right_eq_some.mp hs
    exact .callStop ref
  | stopWorkerDone ref =>
    obtain ⟨-, ⟨⟩⟩ := Option.ite_none_right_eq_some.mp hs
    exact .stay

theorem swept_init (c : ServerConf) (workerSize : Nat) : (init c workerSize).sweep.Swept :=
  fun _ _ _ => trivial

theorem noLiveWorker_of_swept (h : s.sweep.Swept) : s.NoLiveWorker := by
  intro hpc wid w hw
  have hacc := h wid w hw
  unfold Sweep.Accounted at hacc
  rw [show s.sweep.stop = .returned from hpc] at hacc
  exact hacc

/--
**In every run in which no worker is stored in a bucket whose `Range` has been called, no
registered worker is left running after `Stop` has returned.**
-/
theorem no_live_worker_of_no_late_put (c : ServerConf) (workerSize : Nat) (acts : List ServerAct)
    (h : EachStep step (fun s a _ => s.latePut a = false) (init c workerSize) acts) :
    EachState step NoLiveWorker (init c workerSize) acts :=
  eachState_of_inv (I := fun s => s.sweep.Swept)
    (fun _ _ _ hi hlate hs => hi.step (sweep_step hlate hs)) (fun _ => noLiveWorker_of_swept)
    (swept_init c workerSize) h

/-- Two buckets and one accept loop. -/
def twoBuckets : ServerConf := { netType := .tcp, bucket := ⟨2, by decide⟩ }

/-- A connection registers its worker, and `Stop` runs after that. -/
def stopAfterPut : List ServerAct :=
  [.acceptLoop 0, .accept 0 none, .work 0 true, .work 0 true, .work 0 true, .stopStep, .stopStep,
    .visit 16 ⟨0, 16, none⟩, .stopStep, .stopStep, .stopStep, .stopStep, .stopWorker 0,
    .stopWorkerDone 0, .stopStep, .stopStep]

theorem no_live_worker_registered_before :
    EachState step NoLiveWorker (init twoBuckets 1) stopAfterPut ∧
      (run step (init twoBuckets 1) stopAfterPut).map
        (fun s => (s.stop, s.server.manager.worker 16, s.stopped)) =
      some (.returned, some ⟨0, 16, none⟩, [0]) :=
  ⟨no_live_worker_of_no_late_put _ _ _ (by decide +kernel), by decide +kernel⟩

/--
`Stop` returns while a connection is in its handshake. The connection goes on to register its
worker and to run it.
-/
theorem live_worker_after_stop :
    (run step (init twoBuckets 1) [.acceptLoop 0, .accept 0 none, .stopStep, .stopStep, .stopStep,
        .stopStep, .stopStep, .stopStep, .stopStep, .stopStep, .work 0 true, .work 0 true,
        .work 0 true, .work 0 true]).map
      (fun s => (s.stop, s.server.manager.worker 16, s.stopped, s.conns.map Conn.pc)) =
    some (.returned, some ⟨0, 16, none⟩, [], [.run]) := by
  decide +kernel

end ServerRun

end FabricaNet.Internal
