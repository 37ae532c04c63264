import FabricaNet.Go.Range
import FabricaNet.Internal.Process

/-!
# A server from accept to stop

`internal/server.go`, as steps of the goroutines of one server: the accept loops, one goroutine per
connection that runs `work`, the calls of `Disconnect`, the one call of `Stop` that `TurnOff` lets
through, and the goroutines that this call starts to stop the workers.

## What is left open

A connection may fail at any of its stages, and `Run` may return for any reason. Of `Worker.Stop`
only the flag is looked at: from the call on `OnStopping` of the worker is true. Of `Put` and `Del`
only the step on the bucket is looked at, since neither the index nor the size is read here; the
other steps are in `FabricaNet/Internal/Process.lean`.
-/

namespace FabricaNet.Internal

open Go Lib Xnet

/-- Where an accept loop is. -/
inductive AcceptPc where
  | select
  /-- in `listener.Accept` -/
  | accepting
  | exited
deriving DecidableEq, Repr

/-- Where `work` is: the part that comes next. -/
inductive WorkPc where
  /-- `handshake`, in `w.Start` -/
  | handshake
  /-- `svc.OnConnected`, in `w.Start` -/
  | onConnected
  /-- `workerManager.Put`, in `addWorker` -/
  | put
  /-- `ow.Stop`, in `addWorker` -/
  | stopOld (ow : Worker)
  | afterConnect
  | run
  /-- the deferred `delWorker` -/
  | delWorker
  /-- the deferred `w.Stop` -/
  | stop
  | afterDisconnect
  | returned
deriving DecidableEq, Repr

/-- A connection, with the worker that `newWorker` builds for it. -/
structure Conn where
  worker : Worker
  pc : WorkPc

/-- Where a call of `Disconnect` is. -/
inductive DisconnectPc where
  | check (wid : UInt64)
  | lookup (wid : UInt64)
  | delWorker (wid : UInt64) (w : Worker)
  | stop (w : Worker)
  | returned (err : Option Err)
deriving DecidableEq, Repr

/-- Where `Stop` is: the part that comes next. -/
inductive ServerStopPc where
  | notCalled
  /-- `Walk` comes to the bucket at this position -/
  | walk (bucket : Nat)
  /-- `Walk` is in `Range` over the bucket -/
  | range (bucket : Nat) (r : Ranging UInt64 Worker)
  /-- `wg.Wait` -/
  | wait
  | stopListener
  | returned
deriving DecidableEq, Repr

namespace ServerStopPc

/-- A worker is stored in a bucket. -/
def stored (w : Worker) (bucket : Nat) : ServerStopPc → ServerStopPc
  | .range j r => if j = bucket then .range j (r.stored w.id w) else .range j r
  | pc => pc

/-- An id is deleted from a bucket. -/
def deleted (wid : UInt64) (bucket : Nat) : ServerStopPc → ServerStopPc
  | .range j r => if j = bucket then .range j (r.deleted wid) else .range j r
  | pc => pc

/-- The `Range` over the bucket has been called. -/
def begun (bucket : Nat) : ServerStopPc → Bool
  | .notCalled => false
  | .walk j => bucket < j
  | .range j _ => bucket ≤ j
  | .wait | .stopListener | .returned => true

end ServerStopPc

/-- A server and its goroutines. Workers are given by their `ref`. -/
structure ServerRun where
  server : Server
  listening : Bool
  acceptLoops : List AcceptPc
  conns : List Conn
  disconnects : List DisconnectPc
  /-- the workers whose `OnStopping` is true -/
  stopped : List Nat
  stop : ServerStopPc
  /-- the goroutines of `Stop` before their call of `w.Stop` -/
  stopCalls : List Nat
  /-- the goroutines of `Stop` before their `wg.Done` -/
  stopsRunning : List Nat

inductive ServerAct where
  /-- an accept loop comes to its `select` -/
  | acceptLoop (k : Nat)
  /-- an accept loop takes the case `<-ctx.Done()` -/
  | acceptCtxDone (k : Nat)
  /-- `listener.Accept` returns a connection; its session will be `ss` -/
  | accept (k : Nat) (ss : Option Session)
  | acceptFailed (k : Nat)
  /-- the next part of `work` returns, without an error or with one -/
  | work (i : Nat) (ok : Bool)
  | disconnect (wid : UInt64)
  /-- the next part of a `Disconnect`; `err` is what `w.Stop` returns -/
  | disconnectStep (k : Nat) (err : Option Err)
  /-- the call of `Stop`, and then its next part -/
  | stopStep
  /-- `Range` calls the function that `Stop` passes to `Walk` -/
  | visit (wid : UInt64) (w : Worker)
  /-- a goroutine of `Stop` calls `w.Stop` -/
  | stopWorker (ref : Nat)
  /-- a goroutine of `Stop` calls `wg.Done` -/
  | stopWorkerDone (ref : Nat)
deriving DecidableEq, Repr

namespace ServerRun

/-- After `NewBaseServer` and `Start`. -/
def init (c : ServerConf) (workerSize : Nat) : ServerRun where
  server := newServer c
  listening := true
  acceptLoops := List.replicate workerSize .select
  conns := []
  disconnects := []
  stopped := []
  stop := .notCalled
  stopCalls := []
  stopsRunning := []

/-- The worker's `Stop` is called. -/
def stopWorker (s : ServerRun) (w : Worker) : ServerRun := { s with stopped := w.ref :: s.stopped }

/-- `Put`: the worker found, and the server after the call. -/
def put (s : ServerRun) (w : Worker) : Option Worker × ServerRun :=
  match s.server.manager.putBucket w with
  | (some ow, m) => (some ow, { s with server := { s.server with manager := m } })
  | (none, m) =>
    (none, { s with
      server := { s.server with manager := m }
      stop := s.stop.stored w (s.server.manager.bucketIdx w.id) })

/-- `delWorker`. -/
def delWorker (s : ServerRun) (wid : UInt64) : ServerRun :=
  { s with
    server := { s.server with manager := s.server.manager.delBucket wid }
    stop := s.stop.deleted wid (s.server.manager.bucketIdx wid) }

/-- The server with the state of one connection replaced. -/
def setConn (s : ServerRun) (i : Nat) (c : Conn) (pc : WorkPc) : ServerRun :=
  { s with conns := s.conns.set i { c with pc := pc } }

/-- The next part of `work`. -/
def workStep (s : ServerRun) (i : Nat) (c : Conn) : WorkPc → Bool → Option ServerRun
  | .handshake, true => some (s.setConn i c .onConnected)
  | .handshake, false => some (s.setConn i c .stop)
  | .onConnected, true => some (s.setConn i c .put)
  | .onConnected, false => some (s.setConn i c .stop)
  | .put, true =>
    match s.put c.worker with
    | (none, s) => some (s.setConn i c .afterConnect)
    | (some ow, s) => some (s.setConn i c (.stopOld ow))
  -- the id was taken: the worker itself is not registered, and goes on unless `ow.Stop` fails
  | .stopOld ow, true => some ((s.stopWorker ow).setConn i c .afterConnect)
  | .stopOld ow, false => some ((s.stopWorker ow).setConn i c .stop)
  | .afterConnect, true => some (s.setConn i c .run)
  -- from here on `delWorker` is deferred
  | .afterConnect, false => some (s.setConn i c .delWorker)
  | .run, _ => some (s.setConn i c .delWorker)
  | .delWorker, true => some ((s.delWorker c.worker.id).setConn i c .stop)
  | .stop, _ => some ((s.stopWorker c.worker).setConn i c .afterDisconnect)
  | .afterDisconnect, _ => some (s.setConn i c .returned)
  | _, _ => none

/-- The server with the state of one `Disconnect` replaced. -/
def setDisconnect (s : ServerRun) (k : Nat) (pc : DisconnectPc) : ServerRun :=
  { s with disconnects := s.disconnects.set k pc }

/-- The next part of `Disconnect`. -/
def disconnectStep (s : ServerRun) (k : Nat) (err : Option Err) :
    DisconnectPc → Option ServerRun
  | .check wid =>
    if s.server.stopping then some (s.setDisconnect k (.returned (some errIsStopped)))
    else some (s.setDisconnect k (.lookup wid))
  | .lookup wid =>
    match s.server.manager.worker wid with
    | none => some (s.setDisconnect k (.returned (some (.new "worker not found"))))
    | some w => some (s.setDisconnect k (.delWorker wid w))
  | .delWorker wid w => some ((s.delWorker wid).setDisconnect k (.stop w))
  | .stop w => some ((s.stopWorker w).setDisconnect k (.returned err))
  | .returned _ => none

/-- The next part of `Stop`. -/
def stopStep (s : ServerRun) : Option ServerRun :=
  match s.stop with
  | .notCalled => some { s with server := { s.server with stopping := true }, stop := .walk 0 }
  | .walk j =>
    match s.server.manager.buckets[j]? with
    | none => some { s with stop := .wait }
    | some b => some { s with stop := .range j (Ranging.start b) }
  | .range j r => if r.finished then some { s with stop := .walk (j + 1) } else none
  -- every goroutine has come to its `wg.Done`
  | .wait =>
    if s.stopCalls = [] ∧ s.stopsRunning = [] then some { s with stop := .stopListener } else none
  | .stopListener => some { s with listening := false, stop := .returned }
  | .returned => none

/-- `Range` visits a worker, and `Stop` starts a goroutine for it. -/
def visit (s : ServerRun) (wid : UInt64) (w : Worker) : Option ServerRun :=
  match s.stop with
  | .range j r =>
    match r.visit wid w with
    | none => none
    | some r => some { s with stop := .range j r, stopCalls := w.ref :: s.stopCalls }
  | _ => none

/-- The goroutine that `accept` starts for a new connection. -/
def addConn (s : ServerRun) (ss : Option Session) : ServerRun :=
  let (id, gen) := s.server.gen.next
  { s with
    server := { s.server with gen := gen }
    conns := s.conns ++ [{ worker := ⟨s.conns.length, id, ss⟩, pc := .handshake }] }

/-- The next part of an accept loop. -/
def acceptStep (s : ServerRun) (k : Nat) (pc pc' : AcceptPc) : Option ServerRun :=
  if s.acceptLoops[k]? = some pc then some { s with acceptLoops := s.acceptLoops.set k pc' }
  else none

def step (s : ServerRun) : ServerAct → Option ServerRun
  -- the trigger is looked at between two calls of `Accept` only
  | .acceptLoop k => s.acceptStep k .select (if s.server.stopping then .exited else .accepting)
  | .acceptCtxDone k => s.acceptStep k .select .exited
  | .accept k ss =>
    if s.listening then (s.addConn ss).acceptStep k .accepting .select else none
  | .acceptFailed k => s.acceptStep k .accepting .select
  | .work i ok =>
    match s.conns[i]? with
    | none => none
    | some c => s.workStep i c c.pc ok
  | .disconnect wid => some { s with disconnects := s.disconnects ++ [.check wid] }
  | .disconnectStep k err =>
    match s.disconnects[k]? with
    | none => none
    | some pc => s.disconnectStep k err pc
  | .stopStep => s.stopStep
  | .visit wid w => s.visit wid w
  | .stopWorker ref =>
    if ref ∈ s.stopCalls then
      some { s with
        stopped := ref :: s.stopped
        stopCalls := s.stopCalls.erase ref
        stopsRunning := ref :: s.stopsRunning }
    else none
  | .stopWorkerDone ref =>
    if ref ∈ s.stopsRunning then some { s with stopsRunning := s.stopsRunning.erase ref }
    else none

end ServerRun

end FabricaNet.Internal
