import FabricaNet.Internal.SendSafety

/-!
# When a worker comes to its end

`Worker.Run` of `internal/worker.go` as a whole: the goroutine that waits for the stop, `sendLoop`,
`readLoop` and `tickLoop` in one errgroup, beside `Stop`, which `BaseServer.work` calls after `Run`
and others may call at any time. The queue, the calls of `Push`, `sendLoop` and the parts of `Stop`
are those of `FabricaNet/Internal/Worker.lean`.

`Handle` and `Tick` may push to their own worker as often as they like, through `BaseServer.Push` or
the worker that `CreateAppTunnel` was given. `Push` does not look at the context: once `sendLoop`
has returned and the queue is full, such a call blocks. Then `Run` does not return, so that `work`
does not come to its `Stop`, and only a `Stop` from outside can help. That is the state `Wedged`;
`FabricaNet/Internal/WorkerWedge.lean` has the results about it.

## What is left open

When `Start` or what comes after it fails, `work` calls `Stop` of a worker that is never run; that
call is one of `callStop`, with no `run` after it.

`Decode` returns a pack or an error at any time: the deadline makes it return. The service returns
from its calls unless it is blocked in `Push`, and so do the parts of `Stop`. A panic in a loop is
an error, because of `xsync.Run`.
-/

namespace FabricaNet.Internal

open Go Lib Xnet

/-- The two loops of a worker that call the service. -/
inductive ServiceLoop where
  | read
  | tick
deriving DecidableEq, Repr

/-- Where such a loop is. -/
inductive ServiceLoopPc where
  | notStarted
  | select
  /-- in `read`, the check of `OnStopping` is next -/
  | checking
  /-- in `read`, between that check and `Handle` -/
  | reading
  /-- in `Handle` or in `Tick` -/
  | serving
  /-- there, in the `i`-th call of `Push` -/
  | pushing (i : Nat)
  | exited
deriving DecidableEq, Repr

/-- Where the goroutine is that waits for the stop. -/
inductive WatchPc where
  | notStarted
  | waiting
  | exited
deriving DecidableEq, Repr

structure WorkerLife where
  queue : WorkerRun
  watch : WatchPc
  loop : ServiceLoop → ServiceLoopPc

/-- A step of a loop that calls the service. -/
inductive ServiceAct where
  /-- the case `<-ctx.Done()` -/
  | ctxDone
  /-- the other case: `read`, or the ticker -/
  | next
  /-- `read` checks `OnStopping` -/
  | check
  /-- `read` gets a pack for `Handle`, or an error -/
  | decoded (ok : Bool)
  /-- the service calls `Push` -/
  | push (i : Nat) (out : Pack)
  /-- `Push` returns there -/
  | pushed
  /-- `Handle` or `Tick` returns -/
  | ret (ok : Bool)
deriving DecidableEq, Repr

inductive WorkerLifeAct where
  /-- a step of `Push` or of `sendLoop`, or the end of the caller's context -/
  | queue (a : WorkerAct)
  | run
  /-- somebody else calls `Stop` -/
  | callStop
  /-- `Run` has returned, and `work` calls `Stop` -/
  | workStop
  /-- the next part of the function passed to `TurnOff` -/
  | stopStep
  | watch
  | serve (l : ServiceLoop) (a : ServiceAct)
deriving DecidableEq, Repr

/-- The actions of the queue that are not part of `Run` or `Stop`. -/
def WorkerAct.ofQueue : WorkerAct → Bool
  | .run | .stopStep | .watch => false
  | _ => true

namespace WorkerLife

/-- What `newWorker` returns. -/
def init (replyChanSize : Nat) : WorkerLife where
  queue := .init replyChanSize
  watch := .notStarted
  loop := fun _ => .notStarted

def setLoop (s : WorkerLife) (l : ServiceLoop) (pc : ServiceLoopPc) : WorkerLife :=
  { s with loop := Function.update s.loop l pc }

/-- A loop returns an error, which ends the context of the others. -/
def fail (s : WorkerLife) (l : ServiceLoop) : WorkerLife :=
  { s with queue := { s.queue with ctxDone := true } }.setLoop l .exited

/-- `eg.Wait` returns. -/
def Returned (s : WorkerLife) : Prop :=
  s.watch = .exited ∧ s.queue.loop = .exited ∧ s.loop .read = .exited ∧ s.loop .tick = .exited

instance (s : WorkerLife) : Decidable s.Returned :=
  inferInstanceAs (Decidable (_ ∧ _ ∧ _ ∧ _))

def serviceStep (s : WorkerLife) (l : ServiceLoop) : ServiceLoopPc → ServiceAct → Option WorkerLife
  | .select, .ctxDone => if s.queue.ctxDone then some (s.setLoop l .exited) else none
  | .select, .next =>
    match l with
    -- the default case is taken only when the context has not ended
    | .read => if s.queue.ctxDone then none else some (s.setLoop l .checking)
    | .tick => some (s.setLoop l .serving)
  | .checking, .check => if s.queue.stopping then some (s.fail l) else some (s.setLoop l .reading)
  | .reading, .decoded true => some (s.setLoop l .serving)
  | .reading, .decoded false => some (s.fail l)
  | .serving, .push i out =>
    (s.queue.step (.push i out)).map fun q => { s with queue := q }.setLoop l (.pushing i)
  | .pushing i, .pushed =>
    match s.queue.pushes i with
    | .accepted _ | .refused _ => some (s.setLoop l .serving)
    | .panicked => some (s.fail l)
    | _ => none
  | .serving, .ret true => some (s.setLoop l .select)
  | .serving, .ret false => some (s.fail l)
  | _, _ => none

def step (s : WorkerLife) : WorkerLifeAct → Option WorkerLife
  | .queue a =>
    if a.ofQueue then (s.queue.step a).map fun q => { s with queue := q } else none
  | .run =>
    (s.queue.step .run).map fun q => { queue := q, watch := .waiting, loop := fun _ => .select }
  | .callStop =>
    if s.queue.stop = .notCalled then s.queue.stopStep.map fun q => { s with queue := q } else none
  | .workStop =>
    if s.queue.stop = .notCalled ∧ s.Returned then
      s.queue.stopStep.map fun q => { s with queue := q }
    else none
  | .stopStep =>
    if s.queue.stop ≠ .notCalled then s.queue.stopStep.map fun q => { s with queue := q } else none
  | .watch =>
    if s.watch = .waiting ∧ (s.queue.stopping = true ∨ s.queue.ctxDone = true) then
      some { s with watch := .exited, queue := { s.queue with ctxDone := true } }
    else none
  | .serve l a => s.serviceStep l (s.loop l) a

/-- The steps that the worker takes by itself. -/
def own (s : WorkerLife) : WorkerLifeAct → Bool
  | .queue (.push _ _) | .queue .cancel | .run | .callStop => false
  -- of the calls of `Push`, those that the service makes in the loops
  | .queue (.pushStep i) => s.loop .read = .pushing i || s.loop .tick = .pushing i
  | _ => true

/-! ## The states in question -/

/-- No step of the worker's own is possible. -/
def Stuck (s : WorkerLife) : Prop := ∀ a, s.own a = true → s.step a = none

/-- `Run` has returned, and `Stop` has run through. -/
def Ended (s : WorkerLife) : Prop := s.Returned ∧ s.queue.stop = .done

/-- The service is in a call of `Push` that has come to its send. -/
def SendsIn (s : WorkerLife) (l : ServiceLoop) : Prop :=
  ∃ i out, s.loop l = .pushing i ∧ s.queue.pushes i = .send out

/--
`sendLoop` has returned, the queue is full, and the service is blocked on it, so that `Run` does not
return. Nobody has called `Stop`.
-/
structure Wedged (s : WorkerLife) : Prop where
  notStopped : s.queue.stop = .notCalled
  full : s.queue.sendChan.cap ≤ s.queue.sendChan.buf.length
  watch : s.watch = .exited
  sendLoop : s.queue.loop = .exited
  loops : ∀ l, s.loop l = .exited ∨ s.SendsIn l
  blocked : ∃ l, s.SendsIn l

/-- The worker can end within `n` steps of its own. -/
def CanEnd : Nat → WorkerLife → Prop
  | 0, s => s.Ended
  | n + 1, s => s.Ended ∨ ∃ a s', s.own a = true ∧ s.step a = some s' ∧ CanEnd n s'

end WorkerLife

/-! ## Steps of the queue -/

namespace WorkerRun

variable {s s' : WorkerRun} {a : WorkerAct}

/-- When `sendLoop` returns, the context has ended. -/
theorem ctxDone_of_exit {ctxDone : Bool} (act : a = .loopDone ∨ a = .loopRecv)
    (hs : s.step a = some { s with loop := .exited, ctxDone := ctxDone }) : ctxDone = true := by
  rcases act with rfl | rfl
  · obtain ⟨⟨-, hdone⟩, heq⟩ := Option.ite_none_right_eq_some.mp hs
    cases heq
    exact hdone
  · obtain ⟨-, hrecv⟩ := Option.ite_none_right_eq_some.mp hs
    unfold loopRecv at hrecv
    split at hrecv
    · cases hrecv
    · cases hrecv; rfl
    · cases hrecv

/-- The context stays ended, and has ended when `sendLoop` has returned. -/
theorem ctxDone_step (hs : s.step a = some s') :
    (s.ctxDone = true → s'.ctxDone = true) ∧
      (s'.loop = .exited → s.loop = .exited ∨ s'.ctxDone = true) := by
  cases step_effect hs with
  | exit ctxDone pc act =>
    have hdone := ctxDone_of_exit act hs
    exact ⟨fun _ => hdone, fun _ => Or.inr hdone⟩
  | ctxDone | writeFailed => exact ⟨fun _ => rfl, fun _ => Or.inr rfl⟩
  | run | recv | handOff | encode | written =>
    exact ⟨fun h => h, fun hpc => by cases hpc⟩
  | _ => exact ⟨fun h => h, Or.inl⟩

/-- A call of `Push` that has begun does not begin again. -/
theorem pushes_ne_idle_step (hs : s.step a = some s') {i : Nat} (h : s.pushes i ≠ .idle) :
    s'.pushes i ≠ .idle := by
  have hset : ∀ (q : WorkerRun) (j : Nat) (pc : PushPc), q.pushes = s.pushes → pc ≠ .idle →
      (q.setPush j pc).pushes i ≠ .idle := by
    intro q j pc hq hpc
    change Function.update q.pushes j pc i ≠ .idle
    by_cases hj : i = j
    · subst hj
      rwa [Function.update_self]
    · rwa [Function.update_of_ne hj, hq]
  cases step_effect hs with
  | push | refuse | pass | panic | enqueue | accept | handOff =>
    exact hset _ _ _ rfl fun hpc => by cases hpc
  | _ => exact h

theorem pushes_of_push {i : Nat} {out : Pack} (hs : s.step (.push i out) = some s') :
    s'.pushes i = .check out := by
  simp only [step] at hs
  split at hs
  · cases hs
    simp [setPush]
  · cases hs

/-- Only `Run` starts `sendLoop`. -/
theorem notStarted_step (hs : s.step a = some s') (h : s.loop = .notStarted) (ha : a ≠ .run) :
    s'.loop = .notStarted := by
  cases step_effect hs with
  | run => exact absurd rfl ha
  | exit _ pc | recv pc | handOff pc | encode pc | written pc =>
    rw [h] at pc
    cases pc
  | writeFailed =>
    simp only [step, write, h] at hs
    cases hs
  | _ => exact h

/-- The connection is closed by the last part of `Stop`. -/
theorem connClosed_step (hs : s.step a = some s') (h : s.connClosed = true → s.stop = .done)
    (hc : s'.connClosed = true) : s'.stop = .done := by
  cases step_effect hs with
  | closeConn => rfl
  | turnOff pc | disconnect pc | stopTunnels pc | closeChan pc =>
    have hdone := h hc
    rw [pc] at hdone
    cases hdone
  | _ => exact h hc

/-- A send on the full queue blocks. -/
theorem pushStep_eq_none {i : Nat} {out : Pack} (h : s.pushes i = .send out)
    (hopen : s.sendChan.closed = false) (hfull : s.sendChan.cap ≤ s.sendChan.buf.length) :
    s.pushStep i = none := by
  have hblocked : s.sendChan.send (i, out) = .blocked := by
    simp [Chan.send, hopen, Nat.not_lt.mpr hfull]
  simp only [pushStep, h, hblocked]

/-- `OnStopping` tells whether `Stop` has been called. -/
theorem running_step (hs : s.step a = some s') (h : s.stop = .notCalled → s.stopping = false)
    (hnot : s'.stop = .notCalled) : s'.stopping = false := by
  cases step_effect hs with
  | turnOff | disconnect | stopTunnels | closeChan | closeConn => cases hnot
  | _ => exact h hnot

end WorkerRun

namespace WorkerLife

variable {s s' : WorkerLife} {a : WorkerLifeAct} {l : ServiceLoop} {i : Nat}

@[simp] theorem loop_setLoop_self (s : WorkerLife) (l : ServiceLoop) (pc : ServiceLoopPc) :
    (s.setLoop l pc).loop l = pc := Function.update_self ..

@[simp] theorem loop_setLoop_of_ne {l' : ServiceLoop} (h : l' ≠ l) (s : WorkerLife)
    (pc : ServiceLoopPc) : (s.setLoop l pc).loop l' = s.loop l' := Function.update_of_ne h ..

/-! ## What a step does -/

/-- Every way in which an action changes the worker. -/
inductive Effect (s : WorkerLife) : WorkerLifeAct → WorkerLife → Prop
  | queue {a : WorkerAct} {q : WorkerRun} (act : a.ofQueue = true)
      (does : s.queue.step a = some q) : Effect s (.queue a) { s with queue := q }
  | run {q : WorkerRun} (does : s.queue.step .run = some q) :
      Effect s .run { queue := q, watch := .waiting, loop := fun _ => .select }
  | stop {a : WorkerLifeAct} {q : WorkerRun} (act : a = .callStop ∨ a = .workStop ∨ a = .stopStep)
      (does : s.queue.step .stopStep = some q) : Effect s a { s with queue := q }
  | watch : Effect s .watch
      { s with watch := .exited, queue := { s.queue with ctxDone := true } }
  | move {l : ServiceLoop} {a : ServiceAct} (pc : ServiceLoopPc) (started : pc ≠ .notStarted)
      (exits : pc = .exited → s.queue.ctxDone = true) (pushes : ∀ i, pc ≠ .pushing i) :
      Effect s (.serve l a) (s.setLoop l pc)
  | fail {l : ServiceLoop} {a : ServiceAct} : Effect s (.serve l a) (s.fail l)
  | push {l : ServiceLoop} {i : Nat} {out : Pack} {q : WorkerRun}
      (does : s.queue.step (.push i out) = some q) :
      Effect s (.serve l (.push i out)) ({ s with queue := q }.setLoop l (.pushing i))

theorem serviceStep_effect {b : ServiceAct} {pc : ServiceLoopPc}
    (hs : s.serviceStep l pc b = some s') : Effect s (.serve l b) s' := by
  unfold serviceStep at hs
  split at hs
  · obtain ⟨hdone, ⟨⟩⟩ := Option.ite_none_right_eq_some.mp hs
    exact .move _ (by simp) (fun _ => hdone) (by simp)
  · split at hs
    · obtain ⟨-, ⟨⟩⟩ := Option.ite_none_left_eq_some.mp hs
      exact .move _ (by simp) (by simp) (by simp)
    · cases hs
      exact .move _ (by simp) (by simp) (by simp)
  · split at hs
    · cases hs; exact .fail
    · cases hs; exact .move _ (by simp) (by simp) (by simp)
  · cases hs; exact .move _ (by simp) (by simp) (by simp)
  · cases hs; exact .fail
  · obtain ⟨q, hq, rfl⟩ := Option.map_eq_some_iff.mp hs
    exact .push hq
  · split at hs
    · cases hs; exact .move _ (by simp) (by simp) (by simp)
    · cases hs; exact .move _ (by simp) (by simp) (by simp)
    · cases hs; exact .fail
    · cases hs
  · cases hs; exact .move _ (by simp) (by simp) (by simp)
  · cases hs; exact .fail
  · cases hs

theorem step_effect (hs : s.step a = some s') : Effect s a s' := by
  cases a with
  | queue b =>
    obtain ⟨hact, hb⟩ := Option.ite_none_right_eq_some.mp hs
    obtain ⟨q, hq, rfl⟩ := Option.map_eq_some_iff.mp hb
    exact .queue hact hq
  | run =>
    obtain ⟨q, hq, rfl⟩ := Option.map_eq_some_iff.mp hs
    exact .run hq
  | callStop | workStop | stopStep =>
    obtain ⟨-, hb⟩ := Option.ite_none_right_eq_some.mp hs
    obtain ⟨q, hq, rfl⟩ := Option.map_eq_some_iff.mp hb
    exact .stop (by simp) hq
  | watch =>
    obtain ⟨-, ⟨⟩⟩ := Option.ite_none_right_eq_some.mp hs
    exact .watch
  | serve l b => exact serviceStep_effect hs

/-! ## The invariant -/

structure Inv (s : WorkerLife) : Prop where
  order : s.queue.StopOrder
  running : s.queue.stop = .notCalled → s.queue.stopping = false
  started : s.queue.loop ≠ .notStarted → s.watch ≠ .notStarted ∧ ∀ l, s.loop l ≠ .notStarted
  watch_done : s.watch = .exited → s.queue.ctxDone = true
  send_done : s.queue.loop = .exited → s.queue.ctxDone = true
  loop_done : ∀ l, s.loop l = .exited → s.queue.ctxDone = true
  calls : ∀ l i, s.loop l = .pushing i → s.queue.pushes i ≠ .idle
  conn : s.queue.connClosed = true → s.queue.stop = .done

theorem inv_init (replyChanSize : Nat) : Inv (init replyChanSize) where
  order := WorkerRun.stopOrder_init replyChanSize
  running _ := rfl
  started h := absurd rfl h
  watch_done h := by cases h
  send_done h := by cases h
  loop_done _ h := by cases h
  calls _ _ h := by cases h
  conn h := by cases h

/-- A step of the queue beside the loops. -/
theorem Inv.queue {q : WorkerRun} {b : WorkerAct} (h : Inv s) (hq : s.queue.step b = some q)
    (hb : b ≠ .run) : Inv { s with queue := q } where
  order := h.order.step hq
  running := WorkerRun.running_step hq h.running
  started hpc := h.started fun hnot => hpc (WorkerRun.notStarted_step hq hnot hb)
  watch_done hpc := (WorkerRun.ctxDone_step hq).1 (h.watch_done hpc)
  send_done hpc := ((WorkerRun.ctxDone_step hq).2 hpc).elim
    (fun hexit => (WorkerRun.ctxDone_step hq).1 (h.send_done hexit)) fun hdone => hdone
  loop_done l hpc := (WorkerRun.ctxDone_step hq).1 (h.loop_done l hpc)
  calls l i hpc := WorkerRun.pushes_ne_idle_step hq (h.calls l i hpc)
  conn := WorkerRun.connClosed_step hq h.conn

/-- The end of the context. -/
theorem Inv.ctxDone (h : Inv s) : Inv { s with queue := { s.queue with ctxDone := true } } where
  order := ⟨h.order.stopping_of_called, h.order.closed_iff⟩
  running := h.running
  started := h.started
  watch_done _ := rfl
  send_done _ := rfl
  loop_done _ _ := rfl
  calls := h.calls
  conn := h.conn

/-- A step of a loop that leaves the rest as it is. -/
theorem Inv.setLoop {pc : ServiceLoopPc} (h : Inv s) (hstarted : pc ≠ .notStarted)
    (hexits : pc = .exited → s.queue.ctxDone = true)
    (hpush : ∀ i, pc = .pushing i → s.queue.pushes i ≠ .idle) : Inv (s.setLoop l pc) where
  order := h.order
  running := h.running
  started hpc := by
    obtain ⟨hwatch, hloops⟩ := h.started hpc
    refine ⟨hwatch, fun l' => ?_⟩
    by_cases hl : l' = l
    · subst hl; rwa [loop_setLoop_self]
    · rw [loop_setLoop_of_ne hl]; exact hloops l'
  watch_done := h.watch_done
  send_done := h.send_done
  loop_done l' hpc := by
    by_cases hl : l' = l
    · subst hl; rw [loop_setLoop_self] at hpc; exact hexits hpc
    · rw [loop_setLoop_of_ne hl] at hpc; exact h.loop_done l' hpc
  calls l' i hpc := by
    by_cases hl : l' = l
    · subst hl; rw [loop_setLoop_self] at hpc; exact hpush i hpc
    · rw [loop_setLoop_of_ne hl] at hpc; exact h.calls l' i hpc
  conn := h.conn

/-- `Run` starts its goroutines. -/
theorem Inv.start {q : WorkerRun} (h : Inv s) (hq : s.queue.step .run = some q) :
    Inv { queue := q, watch := .waiting, loop := fun _ => .select } := by
  obtain ⟨-, ⟨⟩⟩ := Option.ite_none_right_eq_some.mp hq
  exact {
    order := h.order.step hq
    running := h.running
    started := fun _ => ⟨by simp, by simp⟩
    watch_done := by simp
    send_done := by simp
    loop_done := by simp
    calls := by simp
    conn := h.conn }

theorem Inv.step (h : Inv s) (hs : s.step a = some s') : Inv s' := by
  cases step_effect hs with
  | queue act does =>
    refine h.queue does fun hrun => ?_
    subst hrun
    cases act
  | run does => exact h.start does
  | stop _ does => exact h.queue does (by simp)
  | watch =>
    have hdone := h.ctxDone
    exact { hdone with
      started := fun hpc => ⟨by simp, (h.started hpc).2⟩
      watch_done := fun _ => rfl }
  | move pc started exits pushes =>
    exact h.setLoop started exits fun i hpc => absurd hpc (pushes i)
  | fail => exact h.ctxDone.setLoop (by simp) (fun _ => rfl) (by simp)
  | push does =>
    refine (h.queue does (by simp)).setLoop (by simp) (by simp) ?_
    intro i hpc
    cases hpc
    simp [WorkerRun.pushes_of_push does]

theorem inv_of_run {n : Nat} {acts : List WorkerLifeAct} (h : run step (init n) acts = some s) :
    Inv s :=
  run_inv_of_remaining (I := fun s _ => Inv s) (fun _ _ _ _ hinv hs => hinv.step hs) (inv_init n) h

end WorkerLife

end FabricaNet.Internal
