import FabricaNet.Internal.Tunnel
import FabricaNet.Internal.Worker
import FabricaNet.Lib.GuardedSend

/-!
# Sends and closes

`Push` looks at `OnStopping` and then sends on `sendChan`; `Stop` closes `sendChan` without waiting
for the calls that have already looked. `Forward` and `stop` of a tunnel do the same with `csChan`.

Both are instances of `FabricaNet/Lib/GuardedSend.lean`: a send on a closed channel is avoided
exactly in the runs in which the close comes when no call is between its look and the end of its
send.
-/

namespace FabricaNet.Internal

open Go Lib Xnet

/-! ## Worker -/

namespace WorkerRun

/-- No `Push` has panicked, and none has its send on a closed `sendChan` before it. -/
def NoSendOnClosed (s : WorkerRun) : Prop :=
  (∀ i, s.pushes i ≠ .panicked) ∧ (s.sendChan.closed = true → ∀ i out, s.pushes i ≠ .send out)

/-- If the action closes `sendChan`, no `Push` is between its checks and the end of its send. -/
def ClosesQuietly (s : WorkerRun) (a : WorkerAct) : Prop :=
  a = .stopStep ∧ s.stop = .closeChan → ∀ i out, s.pushes i ≠ .send out

/-- The phase of a `Push` call. -/
def phaseOf : PushPc → Phase
  | .send _ => .sending
  | .panicked => .panicked
  | _ => .outside

def view (s : WorkerRun) : View Nat where
  stopping := s.stopping
  closed := s.sendChan.closed
  phase := fun i => phaseOf (s.pushes i)

theorem phaseOf_sending {pc : PushPc} : phaseOf pc = .sending ↔ ∃ out, pc = .send out := by
  cases pc <;> simp [phaseOf]

theorem phaseOf_panicked {pc : PushPc} : phaseOf pc = .panicked ↔ pc = .panicked := by
  cases pc <;> simp [phaseOf]

theorem quiet_iff {s : WorkerRun} : s.view.Quiet ↔ ∀ i out, s.pushes i ≠ .send out :=
  forall_congr' fun i => by
    rw [show s.view.phase i = phaseOf (s.pushes i) from rfl, ne_eq, phaseOf_sending, not_exists]

theorem safe_iff {s : WorkerRun} : s.view.Safe ↔ s.NoSendOnClosed :=
  and_congr (forall_congr' fun _ => not_congr phaseOf_panicked) (imp_congr_right fun _ => quiet_iff)

theorem view_setPush (s : WorkerRun) (i : Nat) (pc : PushPc) :
    (s.setPush i pc).view =
      { s.view with phase := Function.update s.view.phase i (phaseOf pc) } :=
  congrArg (View.mk s.stopping s.sendChan.closed) (Function.comp_update phaseOf s.pushes i pc)

/-- The parts of `Stop` after the close. -/
def afterClose : StopPc → Bool
  | .closeConn | .done => true
  | _ => false

/-- What `Stop` has done so far. -/
structure StopOrder (s : WorkerRun) : Prop where
  stopping_of_called : s.stop ≠ .notCalled → s.stopping = true
  closed_iff : s.sendChan.closed = afterClose s.stop

theorem stopOrder_init (replyChanSize : Nat) : StopOrder (init replyChanSize) :=
  ⟨fun h => absurd rfl h, rfl⟩

theorem StopOrder.step {s s' : WorkerRun} {a : WorkerAct} (h : StopOrder s)
    (hs : s.step a = some s') : StopOrder s' := by
  have hclosed := h.closed_iff
  cases step_effect hs with
  | turnOff pc | closeChan pc =>
    rw [pc] at hclosed
    exact ⟨fun _ => by first | rfl | exact h.stopping_of_called (by rw [pc]; decide),
      by first | rfl | exact hclosed⟩
  | disconnect pc | stopTunnels pc | closeConn pc =>
    rw [pc] at hclosed
    exact ⟨fun _ => h.stopping_of_called (by rw [pc]; decide), hclosed⟩
  | _ => exact ⟨h.stopping_of_called, hclosed⟩

theorem step_guard {s s' : WorkerRun} {a : WorkerAct} (h : StopOrder s)
    (hs : s.step a = some s') : GuardStep s.view s'.view := by
  cases step_effect hs with
  | push pc | refuse err pc | enqueue pc | accept pc | handOff loop pc =>
    exact .leave _ (view_setPush ..)
  | pass pc running => exact .enter _ running (view_setPush ..)
  | panic pc closed =>
    exact .panic _ (phaseOf_sending.mpr ⟨_, pc⟩) closed (view_setPush ..)
  | turnOff pc => exact .stop rfl
  | closeChan pc => exact .close (h.stopping_of_called (by rw [pc]; decide)) rfl
  | _ => exact .stay rfl

theorem closes_iff {s s' : WorkerRun} {a : WorkerAct} (h : StopOrder s)
    (hs : s.step a = some s') :
    a = .stopStep ∧ s.stop = .closeChan ↔ s.view.closed = false ∧ s'.view.closed = true := by
  -- no step but one leaves an open channel closed
  have hopen : ∀ {s' : WorkerRun}, s'.view.closed = s.view.closed →
      ¬(s.view.closed = false ∧ s'.view.closed = true) := fun heq hc =>
    absurd (hc.1.symm.trans (heq.symm.trans hc.2)) Bool.false_ne_true
  cases step_effect hs with
  | closeChan pc =>
    refine ⟨fun _ => ⟨?_, rfl⟩, fun _ => ⟨rfl, pc⟩⟩
    show s.sendChan.closed = false
    rw [h.closed_iff, pc]
    rfl
  | turnOff pc | disconnect pc | stopTunnels pc | closeConn pc =>
    exact ⟨fun hc => absurd (pc.symm.trans hc.2) (by decide), fun hc => absurd hc (hopen rfl)⟩
  | ctxDone act | exit _ _ act =>
    rcases act with rfl | rfl <;>
      exact ⟨fun hc => (nomatch hc.1), fun hc => absurd hc (hopen rfl)⟩
  | _ => exact ⟨fun hc => (nomatch hc.1), fun hc => absurd hc (hopen rfl)⟩

/-- A run of a worker is free of sends on its closed queue exactly when the close is quiet. -/
theorem eachState_noSendOnClosed (replyChanSize : Nat) (acts : List WorkerAct) :
    EachState step NoSendOnClosed (init replyChanSize) acts ↔
      EachStep step (fun s a _ => s.ClosesQuietly a) (init replyChanSize) acts := by
  have hiff : EachState step (fun s => s.view.Safe) (init replyChanSize) acts ↔
      EachStep step (fun s a _ => a = .stopStep ∧ s.stop = .closeChan → s.view.Quiet)
        (init replyChanSize) acts :=
    eachState_safe_iff (I := StopOrder) (fun s a s' h hs => ⟨step_guard h hs, h.step hs⟩)
      (fun s a s' h hs => closes_iff h hs) (stopOrder_init replyChanSize) rfl
      (fun i => show Phase.outside ≠ .panicked by decide)
  simp only [safe_iff, quiet_iff] at hiff
  exact hiff

end WorkerRun

/-! ## Tunnel -/

namespace TunnelRun

variable {M : Type} {s s' : TunnelRun M} {a : TunnelAct M}

/-- No `Forward` has panicked, and none has its send on a closed `csChan` before it. -/
def NoSendOnClosed (s : TunnelRun M) : Prop :=
  (∀ i, s.forwards i ≠ .panicked) ∧ (s.csChan.closed = true → ∀ i p, s.forwards i ≠ .send p)

/-- If the action closes `csChan`, no `Forward` is between its check and the end of its send. -/
def ClosesQuietly (s : TunnelRun M) (a : TunnelAct M) : Prop :=
  a = .stopStep ∧ s.stop = .closeChan → ∀ i p, s.forwards i ≠ .send p

/-- The phase of a `Forward` call. -/
def phaseOf : ForwardPc M → Phase
  | .send _ => .sending
  | .panicked => .panicked
  | _ => .outside

def view (s : TunnelRun M) : View Nat where
  stopping := s.stopping
  closed := s.csChan.closed
  phase := fun i => phaseOf (s.forwards i)

theorem phaseOf_sending {pc : ForwardPc M} : phaseOf pc = .sending ↔ ∃ p, pc = .send p := by
  cases pc <;> simp [phaseOf]

theorem phaseOf_panicked {pc : ForwardPc M} : phaseOf pc = .panicked ↔ pc = .panicked := by
  cases pc <;> simp [phaseOf]

theorem quiet_iff : s.view.Quiet ↔ ∀ i p, s.forwards i ≠ .send p :=
  forall_congr' fun i => by
    rw [show s.view.phase i = phaseOf (s.forwards i) from rfl, ne_eq, phaseOf_sending, not_exists]

theorem safe_iff : s.view.Safe ↔ s.NoSendOnClosed :=
  and_congr (forall_congr' fun _ => not_congr phaseOf_panicked) (imp_congr_right fun _ => quiet_iff)

theorem view_setForward (s : TunnelRun M) (i : Nat) (pc : ForwardPc M) :
    (s.setForward i pc).view =
      { s.view with phase := Function.update s.view.phase i (phaseOf pc) } :=
  congrArg (View.mk s.stopping s.csChan.closed) (Function.comp_update phaseOf s.forwards i pc)

/-- The parts of `stop` after the close. -/
def afterClose : TunnelStopPc → Bool
  | .onStop | .done => true
  | _ => false

/-- What `stop` has done so far. -/
structure StopOrder (s : TunnelRun M) : Prop where
  stopping_of_called : s.stop ≠ .notCalled → s.stopping = true
  closed_iff : s.csChan.closed = afterClose s.stop

/-- A step other than one of `stop`. -/
structure Between (s s' : TunnelRun M) : Prop where
  guard : GuardStep s.view s'.view
  stop_eq : s'.stop = s.stop
  stopping_eq : s'.stopping = s.stopping
  closed_eq : s'.csChan.closed = s.csChan.closed

theorem between_forwardStep {i : Nat} (hs : s.forwardStep i = some s') : Between s s' := by
  unfold forwardStep at hs
  split at hs
  · split at hs
    · cases hs; exact ⟨.leave i (view_setForward ..), rfl, rfl, rfl⟩
    · next hflag =>
      cases hs
      exact ⟨.enter i (Bool.eq_false_iff.mpr hflag) (view_setForward ..), rfl, rfl, rfl⟩
  · next p hpc =>
    split at hs
    · cases hs
    · next hsend =>
      cases hs
      exact ⟨.panic i (phaseOf_sending.mpr ⟨p, hpc⟩) (Chan.send_eq_panic hsend)
        (view_setForward ..), rfl, rfl, rfl⟩
    · next c hsend =>
      cases hs
      obtain ⟨-, rfl⟩ := Chan.send_eq_done hsend
      exact ⟨.leave i (view_setForward ..), rfl, rfl, rfl⟩
  · cases hs

theorem between_loopRecv (hs : s.loopRecv = some s') : Between s s' := by
  unfold loopRecv at hs
  split at hs
  · cases hs
  · cases hs; exact ⟨.stay rfl, rfl, rfl, rfl⟩
  · next p c hrecv =>
    cases hs
    have hclosed := (Chan.recv_eq_got hrecv).2.2
    refine ⟨.stay ?_, rfl, rfl, hclosed⟩
    show View.mk s.stopping c.closed _ = View.mk s.stopping s.csChan.closed _
    rw [hclosed]

theorem between_step (hs : s.step a = some s') (ha : a ≠ .stopStep) : Between s s' := by
  cases a with
  | forward i p =>
    simp only [step] at hs
    split at hs
    · cases hs; exact ⟨.leave i (view_setForward ..), rfl, rfl, rfl⟩
    · cases hs
  | forwardStep i => exact between_forwardStep hs
  | stopStep => exact absurd rfl ha
  | cancel => cases hs; exact ⟨.stay rfl, rfl, rfl, rfl⟩
  | loopDone =>
    simp only [step] at hs
    split at hs
    · split at hs
      · cases hs; exact ⟨.stay rfl, rfl, rfl, rfl⟩
      · cases hs
    · cases hs
  | loopRecv =>
    simp only [step] at hs
    split at hs
    · exact between_loopRecv hs
    · cases hs
  | handle ok =>
    simp only [step] at hs
    split at hs
    · split at hs <;> cases hs <;> exact ⟨.stay rfl, rfl, rfl, rfl⟩
    · cases hs

/-- The parts of `stop`, as far as the channel is concerned. -/
theorem stopStep_cases (hs : s.stopStep = some s') :
    (s.stop = .notCalled ∧ s' = { s with stopping := true, stop := .closeChan }) ∨
    (s.stop = .closeChan ∧ s' = { s with csChan := s.csChan.close, stop := .onStop }) ∨
    (s.stop = .onStop ∧ s' = { s with stop := .done }) := by
  unfold stopStep at hs
  split at hs
  · next hpc =>
    split at hs
    · cases hs; exact Or.inl ⟨hpc, rfl⟩
    · cases hs
  · next hpc => cases hs; exact Or.inr (Or.inl ⟨hpc, rfl⟩)
  · next hpc => cases hs; exact Or.inr (Or.inr ⟨hpc, rfl⟩)
  · cases hs

theorem step_guard (h : StopOrder s) (hs : s.step a = some s') :
    GuardStep s.view s'.view ∧ StopOrder s' := by
  by_cases ha : a = .stopStep
  · subst ha
    rcases stopStep_cases hs with ⟨hpc, rfl⟩ | ⟨hpc, rfl⟩ | ⟨hpc, rfl⟩
    · have hclosed := h.closed_iff
      rw [hpc] at hclosed
      exact ⟨.stop rfl, fun _ => rfl, hclosed⟩
    · have hflag := h.stopping_of_called (by rw [hpc]; decide)
      exact ⟨.close hflag rfl, fun _ => hflag, rfl⟩
    · have hclosed := h.closed_iff
      rw [hpc] at hclosed
      exact ⟨.stay rfl, fun _ => h.stopping_of_called (by rw [hpc]; decide), hclosed⟩
  · have hb := between_step hs ha
    refine ⟨hb.guard, fun hne => ?_, ?_⟩
    · rw [hb.stopping_eq]
      exact h.stopping_of_called (by rwa [← hb.stop_eq])
    · rw [hb.closed_eq, hb.stop_eq]
      exact h.closed_iff

theorem closes_iff (h : StopOrder s) (hs : s.step a = some s') :
    a = .stopStep ∧ s.stop = .closeChan ↔ s.view.closed = false ∧ s'.view.closed = true := by
  by_cases ha : a = .stopStep
  · subst ha
    have hclosed := h.closed_iff
    rcases stopStep_cases hs with ⟨hpc, rfl⟩ | ⟨hpc, rfl⟩ | ⟨hpc, rfl⟩
    · rw [hpc] at hclosed
      exact ⟨fun hc => absurd (hpc.symm.trans hc.2) (by decide),
        fun hc => absurd (hclosed.symm.trans hc.2) (by decide)⟩
    · rw [hpc] at hclosed
      exact ⟨fun _ => ⟨hclosed, rfl⟩, fun _ => ⟨rfl, hpc⟩⟩
    · rw [hpc] at hclosed
      exact ⟨fun hc => absurd (hpc.symm.trans hc.2) (by decide),
        fun hc => absurd (hclosed.symm.trans hc.1) (by decide)⟩
  · have heq := (between_step hs ha).closed_eq
    exact ⟨fun hc => absurd hc.1 ha, fun hc =>
      absurd (hc.1.symm.trans (heq.symm.trans hc.2)) Bool.false_ne_true⟩

/-- A run of a tunnel is free of sends on its closed queue exactly when the close is quiet. -/
theorem eachState_noSendOnClosed (acts : List (TunnelAct M)) :
    EachState step NoSendOnClosed init acts ↔
      EachStep step (fun s a _ => s.ClosesQuietly a) init acts := by
  have hiff : EachState step (fun s : TunnelRun M => s.view.Safe) init acts ↔
      EachStep step (fun s a _ => a = .stopStep ∧ s.stop = .closeChan → s.view.Quiet) init acts :=
    eachState_safe_iff (I := StopOrder) (fun s a s' h hs => step_guard h hs)
      (fun s a s' h hs => closes_iff h hs) ⟨fun hne => absurd rfl hne, rfl⟩ rfl
      (fun i => show Phase.outside ≠ .panicked by decide)
  simp only [safe_iff, quiet_iff] at hiff
  exact hiff

end TunnelRun

/-! ## Both -/

/--
**Neither a worker nor a tunnel sends on its closed queue exactly when `Stop` and `stop` close it
at a moment at which no call of `Push` or `Forward` is between its check and the end of its
send.**
-/
theorem noSendOnClosed_iff (replyChanSize : Nat) (workerActs : List WorkerAct) {M : Type}
    (tunnelActs : List (TunnelAct M)) :
    (EachState WorkerRun.step WorkerRun.NoSendOnClosed (WorkerRun.init replyChanSize) workerActs ↔
      EachStep WorkerRun.step (fun s a _ => s.ClosesQuietly a) (WorkerRun.init replyChanSize)
        workerActs) ∧
    (EachState TunnelRun.step TunnelRun.NoSendOnClosed TunnelRun.init tunnelActs ↔
      EachStep TunnelRun.step (fun s a _ => s.ClosesQuietly a) TunnelRun.init tunnelActs) :=
  ⟨WorkerRun.eachState_noSendOnClosed replyChanSize workerActs,
    TunnelRun.eachState_noSendOnClosed tunnelActs⟩

/--
A `Push` has passed its checks when `Stop` runs to the close of `sendChan`, and then sends. The
same with a `Forward` and `stop`.
-/
theorem send_on_closed :
    (∃ s, run WorkerRun.step (WorkerRun.init 8) [.run, .push 0 [1], .pushStep 0, .stopStep,
        .stopStep, .stopStep, .stopStep, .pushStep 0] = some s ∧ s.pushes 0 = .panicked) ∧
      ∃ s : TunnelRun Nat, run TunnelRun.step TunnelRun.init [.forward 0 5, .forwardStep 0, .cancel,
        .loopDone, .stopStep, .stopStep, .forwardStep 0] = some s ∧ s.forwards 0 = .panicked :=
  ⟨⟨_, rfl, rfl⟩, _, rfl, rfl⟩

end FabricaNet.Internal
