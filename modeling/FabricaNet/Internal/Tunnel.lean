import Mathlib.Logic.Function.Basic
import FabricaNet.Go.Chan
import FabricaNet.Xnet

/-!
# The forward queue of a tunnel

`Tunnel.Forward`, `Tunnel.csLoop` and `Tunnel.stop` of `internal/tunnel.go`, as steps of the
goroutines that run them. `run` calls `stop` when its goroutines have returned, so `csLoop` has.
The messages are of any type. After a `Stop` of `xsync.Stoppable` the call of `stop` is refused, and
`csChan` stays open; that end is in `FabricaNet/Internal/TunnelFlow.lean`.
-/

namespace FabricaNet.Internal

open Go Xnet

/-- Where a call of `Forward` is. -/
inductive ForwardPc (M : Type) where
  | idle
  /-- the check is next -/
  | check (p : M)
  /-- the send on `csChan` is next, and may block -/
  | send (p : M)
  | returned (err : Option Err)
  /-- the send was on a closed channel -/
  | panicked

/-- Where `stop` is: the part of the function passed to `TurnOff` that comes next. -/
inductive TunnelStopPc where
  | notCalled
  /-- `close(t.csChan)` -/
  | closeChan
  /-- `t.OnStop` -/
  | onStop
  | done
deriving DecidableEq, Repr

/-- Where `csLoop` is. -/
inductive TunnelLoopPc (M : Type) where
  | select
  /-- `CSHandle` of the message is next -/
  | handling (p : M)
  | exited

/-- A tunnel, as far as its queue is concerned. -/
structure TunnelRun (M : Type) where
  /-- what `OnStopping` returns -/
  stopping : Bool
  csChan : Chan M
  forwards : Nat → ForwardPc M
  stop : TunnelStopPc
  loop : TunnelLoopPc M
  /-- the context of the errgroup in `run` has ended -/
  ctxDone : Bool

inductive TunnelAct (M : Type) where
  /-- the `i`-th call of `Forward` -/
  | forward (i : Nat) (p : M)
  | forwardStep (i : Nat)
  /-- the call of `stop`, and then its next part -/
  | stopStep
  /-- the context ends, because the caller's does or `scLoop` has returned an error -/
  | cancel
  /-- `csLoop` takes the case `<-ctx.Done()` -/
  | loopDone
  /-- `csLoop` takes the case `<-t.csChan` -/
  | loopRecv
  /-- `CSHandle` returns -/
  | handle (ok : Bool)

namespace TunnelRun

variable {M : Type}

/-- What `newTunnel` returns. -/
def init : TunnelRun M where
  stopping := false
  csChan := Chan.make 1024
  forwards := fun _ => .idle
  stop := .notCalled
  loop := .select
  ctxDone := false

/-- The tunnel with the state of one `Forward` call replaced. -/
def setForward (s : TunnelRun M) (i : Nat) (pc : ForwardPc M) : TunnelRun M :=
  { s with forwards := Function.update s.forwards i pc }

/-- The next step of a `Forward` call. -/
def forwardStep (s : TunnelRun M) (i : Nat) : Option (TunnelRun M) :=
  match s.forwards i with
  | .check p =>
    if s.stopping then some (s.setForward i (.returned (some errIsStopped)))
    else some (s.setForward i (.send p))
  | .send p =>
    match s.csChan.send p with
    | .blocked => none
    | .panic => some (s.setForward i .panicked)
    | .done c => some ({ s with csChan := c }.setForward i (.returned none))
  | _ => none

/-- The next step of `stop`. -/
def stopStep (s : TunnelRun M) : Option (TunnelRun M) :=
  match s.stop with
  -- `stop` is deferred in `run`, behind `eg.Wait`
  | .notCalled =>
    match s.loop with
    | .exited => some { s with stopping := true, stop := .closeChan }
    | _ => none
  | .closeChan => some { s with csChan := s.csChan.close, stop := .onStop }
  | .onStop => some { s with stop := .done }
  | .done => none

/-- `csLoop` receives. -/
def loopRecv (s : TunnelRun M) : Option (TunnelRun M) :=
  match s.csChan.recv with
  | .blocked => none
  | .ended => some { s with loop := .exited, ctxDone := true }
  | .got p c => some { s with csChan := c, loop := .handling p }

def step (s : TunnelRun M) : TunnelAct M → Option (TunnelRun M)
  | .forward i p =>
    match s.forwards i with
    | .idle => some (s.setForward i (.check p))
    | _ => none
  | .forwardStep i => s.forwardStep i
  | .stopStep => s.stopStep
  | .cancel => some { s with ctxDone := true }
  | .loopDone =>
    match s.loop with
    | .select => if s.ctxDone then some { s with loop := .exited } else none
    | _ => none
  | .loopRecv =>
    match s.loop with
    | .select => s.loopRecv
    | _ => none
  | .handle ok =>
    match s.loop with
    | .handling _ =>
      if ok then some { s with loop := .select }
      else some { s with loop := .exited, ctxDone := true }
    | _ => none

end TunnelRun

end FabricaNet.Internal
