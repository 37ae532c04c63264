import Mathlib.Logic.Function.Basic
import FabricaNet.Go.Chan
import FabricaNet.Lib.Run
import FabricaNet.Xnet

/-!
# The send queue of a worker

`Worker.Push`, `Worker.Run` with `sendLoop`, and `Worker.Stop` of `internal/worker.go`, as steps of
the goroutines that run them. Any number of `Push` calls, told apart by a number, meet one
`sendLoop` and one `Stop`: of `xsync.Stoppable` it is assumed that `TurnOff` sets the flag that
`OnStopping` reads before it runs its function, and runs the function once.

## What is left open

`select` takes any case that is ready, so the end of the context and a pack in the queue are two
actions. The context of `Run` ends when its watcher has seen the stop, and for any other reason:
the caller's context, an error of `readLoop`, `tickLoop` or `sendLoop`. `write` may fail in the
filter and `Encrypt`, before it calls `Encode`, and in `Encode`. It does fail when `Encode` is
called on a closed connection.
-/

namespace FabricaNet.Internal

open Go Lib Xnet

/-- A pack in the queue, with the `Push` call that it came from. -/
abbrev Item := Nat × Pack

/-- Where a call of `Push` is. -/
inductive PushPc where
  | idle
  /-- the checks are next -/
  | check (out : Pack)
  /-- the send on `sendChan` is next, and may block -/
  | send (out : Pack)
  /-- the send is done, `return nil` is next -/
  | sent (out : Pack)
  /-- returned nil -/
  | accepted (out : Pack)
  /-- returned an error -/
  | refused (err : Err)
  /-- the send was on a closed channel -/
  | panicked
deriving DecidableEq, Repr

/-- Where `Stop` is: the part of the function passed to `TurnOff` that comes next. -/
inductive StopPc where
  | notCalled
  /-- `svc.OnDisconnect`, if connected -/
  | disconnect
  /-- `tunnelManager.stop` -/
  | stopTunnels
  /-- `close(w.sendChan)` -/
  | closeChan
  /-- `w.conn.Close()` -/
  | closeConn
  | done
deriving DecidableEq, Repr

/-- Where `sendLoop` is. -/
inductive LoopPc where
  | notStarted
  | select
  /-- in `write`, before the call of `Encode` -/
  | writing (item : Item)
  /-- in `Encode`; `closed` tells whether the connection was closed when it was called -/
  | encoding (item : Item) (closed : Bool)
  | exited
deriving DecidableEq, Repr

/-- A worker, as far as its queue is concerned. -/
structure WorkerRun where
  /-- what `OnStopping` returns -/
  stopping : Bool
  sendChan : Chan Item
  pushes : Nat → PushPc
  stop : StopPc
  loop : LoopPc
  /-- the context of the errgroup in `Run` has ended -/
  ctxDone : Bool
  /-- the packs passed to `codec.Encode`, in order -/
  encoded : List Item
  connClosed : Bool

inductive WorkerAct where
  /-- the `i`-th call of `Push` -/
  | push (i : Nat) (out : Pack)
  | pushStep (i : Nat)
  /-- the call of `Stop`, and then its next part -/
  | stopStep
  /-- `Run` starts its goroutines -/
  | run
  /-- the watcher in `Run` sees `StopTriggered` -/
  | watch
  /-- the context ends for another reason -/
  | cancel
  /-- `sendLoop` takes the case `<-ctx.Done()` -/
  | loopDone
  /-- `sendLoop` takes the case `<-w.sendChan` -/
  | loopRecv
  /-- `sendLoop` takes the pack of the `i`-th call, on a channel of capacity 0 -/
  | handOff (i : Nat)
  /-- `write` calls `Encode` -/
  | encode
  /-- `write` returns -/
  | write (ok : Bool)
deriving DecidableEq, Repr

namespace WorkerRun

/-- What `newWorker` returns; `replyChanSize` comes from the configuration. -/
def init (replyChanSize : Nat) : WorkerRun where
  stopping := false
  sendChan := Chan.make replyChanSize
  pushes := fun _ => .idle
  stop := .notCalled
  loop := .notStarted
  ctxDone := false
  encoded := []
  connClosed := false

/-- The worker with the state of one `Push` call replaced. -/
def setPush (s : WorkerRun) (i : Nat) (pc : PushPc) : WorkerRun :=
  { s with pushes := Function.update s.pushes i pc }

/-- The next step of a `Push` call. -/
def pushStep (s : WorkerRun) (i : Nat) : Option WorkerRun :=
  match s.pushes i with
  | .check out =>
    if s.stopping then some (s.setPush i (.refused (.new "worker is stopping")))
    else if out = [] then some (s.setPush i (.refused (.new "push msg len <= 0")))
    else some (s.setPush i (.send out))
  | .send out =>
    match s.sendChan.send (i, out) with
    | .blocked => none
    -- a sender that was blocked when the channel was closed panics too
    | .panic => some (s.setPush i .panicked)
    | .done c => some ({ s with sendChan := c }.setPush i (.sent out))
  | .sent out => some (s.setPush i (.accepted out))
  | _ => none

/-- The next step of `Stop`. -/
def stopStep (s : WorkerRun) : Option WorkerRun :=
  match s.stop with
  | .notCalled => some { s with stopping := true, stop := .disconnect }
  | .disconnect => some { s with stop := .stopTunnels }
  | .stopTunnels => some { s with stop := .closeChan }
  | .closeChan => some { s with sendChan := s.sendChan.close, stop := .closeConn }
  | .closeConn => some { s with connClosed := true, stop := .done }
  | .done => none

/-- `sendLoop` receives. When the channel is closed and empty it returns an error. -/
def loopRecv (s : WorkerRun) : Option WorkerRun :=
  match s.sendChan.recv with
  | .blocked => none
  -- an error of one goroutine ends the context of all
  | .ended => some { s with loop := .exited, ctxDone := true }
  | .got item c => some { s with sendChan := c, loop := .writing item }

/-- `sendLoop` meets a sender on a channel of capacity 0. -/
def handOff (s : WorkerRun) (i : Nat) : Option WorkerRun :=
  match s.pushes i with
  | .send out =>
    if s.sendChan.handsOff then some ({ s with loop := .writing (i, out) }.setPush i (.sent out))
    else none
  | _ => none

/-- `write` calls `Encode`. -/
def encode (s : WorkerRun) : Option WorkerRun :=
  match s.loop with
  | .writing item =>
    some { s with encoded := s.encoded ++ [item], loop := .encoding item s.connClosed }
  | _ => none

/-- `write` returns, and `sendLoop` goes on or returns the error. -/
def write (s : WorkerRun) : Bool → Option WorkerRun
  | true =>
    match s.loop with
    -- on a connection that was closed before the call `Encode` does not return nil
    | .encoding _ false => some { s with loop := .select }
    | _ => none
  | false =>
    match s.loop with
    | .writing _ | .encoding _ _ => some { s with loop := .exited, ctxDone := true }
    | _ => none

def step (s : WorkerRun) : WorkerAct → Option WorkerRun
  | .push i out =>
    match s.pushes i with
    | .idle => some (s.setPush i (.check out))
    | _ => none
  | .pushStep i => s.pushStep i
  | .stopStep => s.stopStep
  | .run => if s.loop = .notStarted then some { s with loop := .select } else none
  | .watch =>
    if s.stopping = true ∧ s.loop ≠ .notStarted then some { s with ctxDone := true } else none
  | .cancel => if s.loop ≠ .notStarted then some { s with ctxDone := true } else none
  | .loopDone =>
    if s.loop = .select ∧ s.ctxDone = true then some { s with loop := .exited } else none
  | .loopRecv => if s.loop = .select then s.loopRecv else none
  | .handOff i => if s.loop = .select then s.handOff i else none
  | .encode => s.encode
  | .write ok => s.write ok

/-! ## What a step does -/

/-- Every way in which an action changes the worker. -/
inductive Effect (s : WorkerRun) : WorkerAct → WorkerRun → Prop
  | push {i : Nat} {out : Pack} (pc : s.pushes i = .idle) :
      Effect s (.push i out) (s.setPush i (.check out))
  | refuse {i : Nat} {out : Pack} (err : Err) (pc : s.pushes i = .check out) :
      Effect s (.pushStep i) (s.setPush i (.refused err))
  | pass {i : Nat} {out : Pack} (pc : s.pushes i = .check out) (running : s.stopping = false) :
      Effect s (.pushStep i) (s.setPush i (.send out))
  | panic {i : Nat} {out : Pack} (pc : s.pushes i = .send out) (closed : s.sendChan.closed = true) :
      Effect s (.pushStep i) (s.setPush i .panicked)
  | enqueue {i : Nat} {out : Pack} (pc : s.pushes i = .send out) :
      Effect s (.pushStep i) ({ s with sendChan := { s.sendChan with
        buf := s.sendChan.buf ++ [(i, out)] } }.setPush i (.sent out))
  | accept {i : Nat} {out : Pack} (pc : s.pushes i = .sent out) :
      Effect s (.pushStep i) (s.setPush i (.accepted out))
  | turnOff (pc : s.stop = .notCalled) :
      Effect s .stopStep { s with stopping := true, stop := .disconnect }
  | disconnect (pc : s.stop = .disconnect) : Effect s .stopStep { s with stop := .stopTunnels }
  | stopTunnels (pc : s.stop = .stopTunnels) : Effect s .stopStep { s with stop := .closeChan }
  | closeChan (pc : s.stop = .closeChan) :
      Effect s .stopStep { s with sendChan := s.sendChan.close, stop := .closeConn }
  | closeConn (pc : s.stop = .closeConn) :
      Effect s .stopStep { s with connClosed := true, stop := .done }
  | run (pc : s.loop = .notStarted) : Effect s .run { s with loop := .select }
  | ctxDone {a : WorkerAct} (act : a = .watch ∨ a = .cancel) : Effect s a { s with ctxDone := true }
  | exit {a : WorkerAct} (ctxDone : Bool) (pc : s.loop = .select)
      (act : a = .loopDone ∨ a = .loopRecv) :
      Effect s a { s with loop := .exited, ctxDone := ctxDone }
  | recv {item : Item} {rest : List Item} (pc : s.loop = .select)
      (buf : s.sendChan.buf = item :: rest) :
      Effect s .loopRecv { s with
        sendChan := { s.sendChan with buf := rest }, loop := .writing item }
  | handOff {i : Nat} {out : Pack} (loop : s.loop = .select) (pc : s.pushes i = .send out) :
      Effect s (.handOff i) ({ s with loop := .writing (i, out) }.setPush i (.sent out))
  | encode {item : Item} (pc : s.loop = .writing item) :
      Effect s .encode
        { s with encoded := s.encoded ++ [item], loop := .encoding item s.connClosed }
  | written {item : Item} (pc : s.loop = .encoding item false) :
      Effect s (.write true) { s with loop := .select }
  | writeFailed : Effect s (.write false) { s with loop := .exited, ctxDone := true }

theorem pushStep_effect {s s' : WorkerRun} {i : Nat} (h : s.pushStep i = some s') :
    Effect s (.pushStep i) s' := by
  unfold pushStep at h
  split at h
  · next out hpc =>
    split at h
    · cases h; exact .refuse _ hpc
    · next hflag =>
      split at h
      · cases h; exact .refuse _ hpc
      · cases h; exact .pass hpc (Bool.eq_false_iff.mpr hflag)
  · next out hpc =>
    split at h
    · cases h
    · next hsend => cases h; exact .panic hpc (Chan.send_eq_panic hsend)
    · next c hsend =>
      cases h
      obtain ⟨-, rfl⟩ := Chan.send_eq_done hsend
      exact .enqueue hpc
  · next out hpc => cases h; exact .accept hpc
  · cases h

theorem stopStep_effect {s s' : WorkerRun} (h : s.stopStep = some s') : Effect s .stopStep s' := by
  unfold stopStep at h
  split at h
  · next hpc => cases h; exact .turnOff hpc
  · next hpc => cases h; exact .disconnect hpc
  · next hpc => cases h; exact .stopTunnels hpc
  · next hpc => cases h; exact .closeChan hpc
  · next hpc => cases h; exact .closeConn hpc
  · cases h

theorem loopRecv_effect {s s' : WorkerRun} (hpc : s.loop = .select) (h : s.loopRecv = some s') :
    Effect s .loopRecv s' := by
  unfold loopRecv at h
  split at h
  · cases h
  · cases h; exact .exit true hpc (Or.inr rfl)
  · next item c hrecv =>
    cases h
    obtain ⟨hbuf, hcap, hclosed⟩ := Chan.recv_eq_got hrecv
    obtain ⟨cap, buf, closed⟩ := c
    subst hcap hclosed
    exact .recv hpc hbuf

theorem step_effect {s s' : WorkerRun} {a : WorkerAct} (h : s.step a = some s') :
    Effect s a s' := by
  cases a with
  | push i out =>
    simp only [step] at h
    split at h
    · next hpc => cases h; exact .push hpc
    · cases h
  | pushStep i => exact pushStep_effect h
  | stopStep => exact stopStep_effect h
  | run =>
    obtain ⟨hpc, ⟨⟩⟩ := Option.ite_none_right_eq_some.mp h
    exact .run hpc
  | watch =>
    obtain ⟨-, ⟨⟩⟩ := Option.ite_none_right_eq_some.mp h
    exact .ctxDone (Or.inl rfl)
  | cancel =>
    obtain ⟨-, ⟨⟩⟩ := Option.ite_none_right_eq_some.mp h
    exact .ctxDone (Or.inr rfl)
  | loopDone =>
    obtain ⟨hpc, ⟨⟩⟩ := Option.ite_none_right_eq_some.mp h
    exact .exit s.ctxDone hpc.1 (Or.inl rfl)
  | loopRecv =>
    obtain ⟨hpc, hrecv⟩ := Option.ite_none_right_eq_some.mp h
    exact loopRecv_effect hpc hrecv
  | handOff i =>
    obtain ⟨hloop, hoff⟩ := Option.ite_none_right_eq_some.mp h
    unfold handOff at hoff
    split at hoff
    · next out hpc =>
      obtain ⟨-, ⟨⟩⟩ := Option.ite_none_right_eq_some.mp hoff
      exact .handOff hloop hpc
    · cases hoff
  | encode =>
    simp only [step, encode] at h
    split at h
    · next item hpc => cases h; exact .encode hpc
    · cases h
  | write ok =>
    cases ok with
    | true =>
      simp only [step, write] at h
      split at h
      · next item hpc => cases h; exact .written hpc
      · cases h
    | false =>
      simp only [step, write] at h
      split at h
      · cases h; exact .writeFailed
      · cases h; exact .writeFailed
      · cases h

end WorkerRun

end FabricaNet.Internal
