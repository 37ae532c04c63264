import Mathlib.Logic.Function.Basic
import FabricaNet.Internal.WorkerManager
import FabricaNet.Lib.Run

/-!
# A connection of the server

`BaseServer.work` of `internal/server.go` for one connection, with `Worker.Start`, `handshake`,
`Run`, `readLoop`, `tickLoop` and `Stop` of `internal/worker.go`, as steps of the goroutines that
take part:

* `work` itself
* `readLoop` and `tickLoop`, which `Run` starts
* the first caller of `Worker.Stop`, who runs the function passed to `TurnOff`
* any number of calls of `BaseServer.Disconnect`, `Stop`, `Push`, `Multicast` and `Broadcast`, which
  come by the worker through the registry

Every call of the service, and every step that the two ends of the connection can see, is an event.

## What is left open

The frames that arrive are any list; `Decode` returns them in order, or fails. Every other call may
fail or not. A filter refuses a frame, drops it, or passes a pack on to the handler once. `Range`
may visit the worker while it is registered, and need not. The context ends at any time. The other
connections of the server put and delete workers under other worker ids.

The index and the size of the registry, `sendLoop` and the queue of the worker are not looked at
here: they are in `FabricaNet/Internal/Process.lean` and `FabricaNet/Internal/Worker.lean`. Of
`xsync.Stoppable` it is assumed that `OnStopping` is true from the first call of `TurnOff` on, that
this call runs its function and waits for it, and that the other calls do not run theirs.
-/

namespace FabricaNet.Internal

open Go Xnet Lib

/-- What happens on a connection. Frames are given with their position in the stream. -/
inductive ConnEvent where
  /-- `svc.Auth` gets a frame -/
  | auth (frame : Nat) (pack : Pack)
  /-- `Auth` returns this session and no error -/
  | authOk (ss : Option Session)
  /-- `Encode` of the reply returns nil -/
  | replied
  | onConnected (ss : Session)
  /-- `OnConnected` returns nil -/
  | connected
  /-- `Put` stores the worker -/
  | registered
  | afterConnect
  /-- a pack is sent on the queue of the worker -/
  | pushed
  | tick (ss : Session)
  /-- `ss.Decrypt` gets a frame -/
  | decrypt (frame : Nat) (ss : Session) (pack : Pack)
  /-- the filter gets what `Decrypt` has made of a frame -/
  | filter (frame : Nat) (pack : Pack)
  /-- `svc.Handle` gets what the filter has made of a frame -/
  | handle (frame : Nat) (ss : Session) (pack : Pack)
  | onDisconnect (ss : Session)
  | afterDisconnect
deriving DecidableEq, Repr

/-- Where `work` is: the part that comes next. -/
inductive ServePc where
  /-- `SetDeadline`, in `handshake` -/
  | deadline
  /-- `Decode`, in `handshake` -/
  | decode
  | auth (frame : Nat) (pack : Pack)
  /-- in `Auth` -/
  | authing
  /-- `Encode`, in `handshake` -/
  | encode (ss : Option Session)
  /-- `ss.SetClientIP` and `w.session = ss` -/
  | setSession (ss : Option Session)
  | onConnected
  /-- in `OnConnected` -/
  | connecting
  /-- `w.connected.Store(true)` -/
  | setConnected
  /-- `workerManager.Put`, in `addWorker` -/
  | put
  /-- `ow.Stop`, in `addWorker` -/
  | stopOld (ow : Worker)
  | afterConnect
  | run
  /-- in `Run` -/
  | running
  /-- the deferred `delWorker` -/
  | delWorker
  /-- the deferred `w.Stop` -/
  | stop
  /-- in the function that `Stop` passes to `TurnOff` -/
  | turningOff
  | afterDisconnect
  | returned
deriving DecidableEq, Repr

/-- Where `readLoop` is. -/
inductive ReadPc where
  | notStarted
  | select
  /-- the check of `OnStopping`, in `read` -/
  | check
  | deadline
  | decode
  | decrypt (frame : Nat) (pack : Pack)
  | filter (frame : Nat) (pack : Pack)
  | handle (frame : Nat) (pack : Pack)
  /-- in `Handle`, and then in what is left of the filter -/
  | handling
  | exited
deriving DecidableEq, Repr

/-- Where `tickLoop` is. -/
inductive TickPc where
  | notStarted
  | select
  /-- in `Tick` -/
  | ticking
  | exited
deriving DecidableEq, Repr

/-- The part of the function passed to `TurnOff` that comes next. -/
inductive TurnOffPc where
  | notCalled
  /-- the check of `Connected` -/
  | connected
  | onDisconnect
  /-- `tunnelManager.stop` -/
  | stopTunnels
  | closeChan
  | closeConn
  | done
deriving DecidableEq, Repr

/-- Where a call of a method of the server is. -/
inductive ServerCallPc where
  | idle
  /-- `Disconnect`: the check of `OnStopping` is next -/
  | check
  /-- `Disconnect`: `workerManager.Worker` is next -/
  | lookup
  /-- `Disconnect`: `delWorker` is next -/
  | delWorker
  /-- `Stop`: in `Walk` -/
  | walk
  /-- `Push`, `Multicast`, `Broadcast`: the registry is looked at -/
  | find
  /-- the checks of `Worker.Push` are next -/
  | push
  /-- the send of `Worker.Push` is next -/
  | send
  /-- `w.Stop` is next -/
  | stop
  /-- in the function that `w.Stop` passes to `TurnOff` -/
  | turningOff
  | returned
deriving DecidableEq, Repr

/-- How a filter deals with a frame. -/
inductive Filtered where
  /-- returns an error without calling the handler -/
  | refused
  /-- returns nil without calling the handler -/
  | dropped
  /-- calls the handler -/
  | passed (out : Pack)
deriving DecidableEq, Repr

/-- A connection, its worker, and the goroutines that have to do with it. -/
structure ConnRun where
  /-- the identity of the worker and its id -/
  ref : Nat
  wid : UInt64
  /-- the frames that arrive -/
  frames : List Pack
  /-- how many of them `Decode` has returned -/
  decoded : Nat
  session : Session
  connected : Bool
  work : ServePc
  read : ReadPc
  tick : TickPc
  /-- the context of the errgroup in `Run` has ended -/
  ctxDone : Bool
  /-- the function that `Worker.Stop` passes to `TurnOff` -/
  off : TurnOffPc
  calls : Nat → ServerCallPc
  /-- `OnStopping` of the server -/
  serverStopping : Bool
  manager : WorkerManager
  events : List ConnEvent

inductive ConnAct where
  /-- the next part of `work` returns, without an error or with one -/
  | work (ok : Bool)
  /-- `Auth` returns no error -/
  | authOk (ss : Option Session)
  /-- the next part of `readLoop` returns, without an error or with one -/
  | read (ok : Bool)
  /-- `Decrypt` returns no error -/
  | decrypted (pack : Pack)
  | filtered (r : Filtered)
  /-- the next part of `tickLoop`; at the `select`, `ok` tells that the ticker fires -/
  | tick (ok : Bool)
  | ctxEnd
  /-- the next part of the function passed to `TurnOff` -/
  | turnOff
  /-- calls of `Disconnect` with the id of the worker, of `Stop`, and of the methods that push -/
  | disconnect (i : Nat)
  | stop (i : Nat)
  | push (i : Nat)
  /-- the next part of a call; `ok` tells whether `Walk` comes to the worker, whether a method that
  pushes comes to it, and whether the pack is not empty -/
  | call (i : Nat) (ok : Bool)
  /-- another connection of the server puts its worker -/
  | otherPut (w : Worker)
  /-- a worker is deleted under another id -/
  | otherDel (wid : UInt64)

namespace ConnRun

/-- What `newWorker` builds for a connection of a new server. -/
def init (c : BucketConf) (ref : Nat) (wid : UInt64) (frames : List Pack) : ConnRun where
  ref := ref
  wid := wid
  frames := frames
  decoded := 0
  session := {}
  connected := false
  work := .deadline
  read := .notStarted
  tick := .notStarted
  ctxDone := false
  off := .notCalled
  calls := fun _ => .idle
  serverStopping := false
  manager := newWorkerManager c
  events := []

/-- The worker of the connection. -/
def worker (s : ConnRun) : Worker := ⟨s.ref, s.wid, some s.session⟩

/-- What `WorkerManager.Worker` returns for the id of the worker. -/
def registered (s : ConnRun) : Option Worker := s.manager.worker s.wid

/-- `OnStopping` of the worker. -/
def onStopping (s : ConnRun) : Bool := s.off ≠ .notCalled

/-- The connection with one more event. -/
def log (s : ConnRun) (e : ConnEvent) : ConnRun := { s with events := s.events ++ [e] }

/-- `delWorker`. -/
def delWorker (s : ConnRun) : ConnRun := { s with manager := s.manager.delBucket s.wid }

/-- The next part of `work`. -/
def workStep (s : ConnRun) : ServePc → Bool → Option ConnRun
  | .deadline, true => some { s with work := .decode }
  | .decode, true =>
    match s.frames[s.decoded]? with
    | none => none
    | some pack => some { s with work := .auth s.decoded pack, decoded := s.decoded + 1 }
  | .auth frame pack, true => some { s.log (.auth frame pack) with work := .authing }
  | .encode ss, true => some { s.log .replied with work := .setSession ss }
  | .setSession (some ss), true => some { s with session := ss, work := .onConnected }
  | .onConnected, true => some { s.log (.onConnected s.session) with work := .connecting }
  | .connecting, true => some { s.log .connected with work := .setConnected }
  -- an error of the handshake or of `OnConnected`; `SetClientIP` of a nil session panics
  | .deadline, false | .decode, false | .authing, false | .encode _, false
  | .setSession none, false | .connecting, false => some { s with work := .stop }
  | .setConnected, true => some { s with connected := true, work := .put }
  | .put, true =>
    match s.manager.putBucket s.worker with
    | (none, m) => some { s.log .registered with manager := m, work := .afterConnect }
    | (some ow, m) => some { s with manager := m, work := .stopOld ow }
  | .stopOld _, true => some { s with work := .afterConnect }
  | .stopOld _, false => some { s with work := .stop }
  | .afterConnect, true => some { s.log .afterConnect with work := .run }
  -- from here on `delWorker` is deferred
  | .afterConnect, false => some { s.log .afterConnect with work := .delWorker }
  | .run, true => some { s with work := .running, read := .select, tick := .select }
  -- `eg.Wait` waits for the loops
  | .running, _ =>
    if s.read = .exited ∧ s.tick = .exited then some { s with work := .delWorker } else none
  | .delWorker, true => some { s.delWorker with work := .stop }
  | .stop, true =>
    if s.off = .notCalled then some { s with off := .connected, work := .turningOff }
    else some { s with work := .afterDisconnect }
  | .turningOff, _ =>
    if s.off = .done then some { s with work := .afterDisconnect } else none
  | .afterDisconnect, _ => some { s.log .afterDisconnect with work := .returned }
  | _, _ => none

/-- `readLoop` goes on, or returns, which ends the context of all loops. -/
def readNext (s : ConnRun) (ok : Bool) (pc : ReadPc) : ConnRun :=
  if ok then { s with read := pc } else { s with read := .exited, ctxDone := true }

/-- The next part of `readLoop`. -/
def readStep (s : ConnRun) : ReadPc → Bool → Option ConnRun
  | .select, true => some (s.readNext (!s.ctxDone) .check)
  | .check, true => some (s.readNext (!s.onStopping) .deadline)
  | .deadline, ok => some (s.readNext ok .decode)
  | .decode, true =>
    match s.frames[s.decoded]? with
    | none => none
    | some pack => some { s with read := .decrypt s.decoded pack, decoded := s.decoded + 1 }
  | .decode, false => some (s.readNext false .decode)
  | .decrypt frame pack, false =>
    some ((s.log (.decrypt frame s.session pack)).readNext false .select)
  | .handle frame pack, true =>
    some ((s.log (.handle frame s.session pack)).readNext true .handling)
  | .handling, ok => some (s.readNext ok .select)
  | _, _ => none

/-- The filter, with what `Decrypt` has made of a frame. -/
def filterStep (s : ConnRun) : ReadPc → Filtered → Option ConnRun
  | .filter frame pack, .refused => some ((s.log (.filter frame pack)).readNext false .select)
  | .filter frame pack, .dropped => some ((s.log (.filter frame pack)).readNext true .select)
  | .filter frame pack, .passed out =>
    some ((s.log (.filter frame pack)).readNext true (.handle frame out))
  | _, _ => none

/-- The next part of `tickLoop`. -/
def tickStep (s : ConnRun) : TickPc → Bool → Option ConnRun
  | .select, true => some { s.log (.tick s.session) with tick := .ticking }
  | .select, false => if s.ctxDone then some { s with tick := .exited } else none
  | .ticking, true => some { s with tick := .select }
  | .ticking, false => some { s with tick := .exited, ctxDone := true }
  | _, _ => none

/-- The next part of the function passed to `TurnOff`. -/
def turnOffStep (s : ConnRun) : Option ConnRun :=
  match s.off with
  | .notCalled | .done => none
  | .connected => some { s with off := if s.connected then .onDisconnect else .stopTunnels }
  | .onDisconnect => some { s.log (.onDisconnect s.session) with off := .stopTunnels }
  | .stopTunnels => some { s with off := .closeChan }
  | .closeChan => some { s with off := .closeConn }
  | .closeConn => some { s with off := .done }

/-- The connection with the state of one call replaced. -/
def setCall (s : ConnRun) (i : Nat) (pc : ServerCallPc) : ConnRun :=
  { s with calls := Function.update s.calls i pc }

/-- The next part of a call. -/
def callStep (s : ConnRun) (i : Nat) : ServerCallPc → Bool → Option ConnRun
  | .check, true => some (s.setCall i (if s.serverStopping then .returned else .lookup))
  | .lookup, true => some (s.setCall i (if s.registered.isSome then .delWorker else .returned))
  | .delWorker, true => some (s.delWorker.setCall i .stop)
  -- the mapping that `Range` visits is one that is there during the call
  | .walk, true => if s.registered.isSome then some (s.setCall i .stop) else none
  | .walk, false => some (s.setCall i .returned)
  | .find, true => if s.registered.isSome then some (s.setCall i .push) else none
  | .find, false => some (s.setCall i .returned)
  | .push, ok => some (s.setCall i (if s.onStopping || !ok then .returned else .send))
  | .send, true => some ((s.log .pushed).setCall i .returned)
  | .stop, true =>
    if s.off = .notCalled then some ({ s with off := .connected }.setCall i .turningOff)
    else some (s.setCall i .returned)
  | .turningOff, true => if s.off = .done then some (s.setCall i .returned) else none
  | _, _ => none

def step (s : ConnRun) : ConnAct → Option ConnRun
  | .work ok => s.workStep s.work ok
  | .authOk ss =>
    if s.work = .authing then some { s.log (.authOk ss) with work := .encode ss } else none
  | .read ok => s.readStep s.read ok
  | .decrypted out =>
    match s.read with
    | .decrypt frame pack =>
      some ((s.log (.decrypt frame s.session pack)).readNext true (.filter frame out))
    | _ => none
  | .filtered r => s.filterStep s.read r
  | .tick ok => s.tickStep s.tick ok
  | .ctxEnd => some { s with ctxDone := true }
  | .turnOff => s.turnOffStep
  | .disconnect i => if s.calls i = .idle then some (s.setCall i .check) else none
  | .stop i =>
    if s.calls i = .idle then
      some ({ s with serverStopping := true }.setCall i
        (if s.serverStopping then .returned else .walk))
    else none
  | .push i =>
    if s.calls i = .idle then
      some (s.setCall i (if s.serverStopping then .returned else .find))
    else none
  | .call i ok => s.callStep i (s.calls i) ok
  | .otherPut w =>
    if w.id = s.wid then none else some { s with manager := (s.manager.putBucket w).2 }
  | .otherDel wid =>
    if wid = s.wid then none else some { s with manager := s.manager.delBucket wid }

/-! ## What a step does -/

/-- The connection with one more event, or none. -/
def tell (s : ConnRun) : Option ConnEvent → ConnRun
  | none => s
  | some e => s.log e

end ConnRun

/-- The steps of `work` that change nothing beside the log; `ss` is the session of the worker. -/
inductive ServePc.Goes (ss : Session) : ServePc → Option ConnEvent → ServePc → Prop
  | deadline : Goes ss .deadline none .decode
  | auth {frame : Nat} {pack : Pack} :
      Goes ss (.auth frame pack) (some (.auth frame pack)) .authing
  | authOk {ss' : Option Session} : Goes ss .authing (some (.authOk ss')) (.encode ss')
  | replied {ss' : Option Session} : Goes ss (.encode ss') (some .replied) (.setSession ss')
  | onConnected : Goes ss .onConnected (some (.onConnected ss)) .connecting
  | connected : Goes ss .connecting (some .connected) .setConnected
  | deadlineFailed : Goes ss .deadline none .stop
  | decodeFailed : Goes ss .decode none .stop
  | authFailed : Goes ss .authing none .stop
  | encodeFailed {ss' : Option Session} : Goes ss (.encode ss') none .stop
  | nilSession : Goes ss (.setSession none) none .stop
  | refused : Goes ss .connecting none .stop
  | stoppedOld {ow : Worker} : Goes ss (.stopOld ow) none .afterConnect
  | stopOldFailed {ow : Worker} : Goes ss (.stopOld ow) none .stop
  | afterConnect : Goes ss .afterConnect (some .afterConnect) .run
  | afterConnectFailed : Goes ss .afterConnect (some .afterConnect) .delWorker
  | ran : Goes ss .running none .delWorker
  | afterDisconnect : Goes ss .afterDisconnect (some .afterDisconnect) .returned

/-- The steps of `readLoop` apart from `Decode`. -/
inductive ReadPc.Goes (ss : Session) : ReadPc → Option ConnEvent → ReadPc → Prop
  | select : Goes ss .select none .check
  | check : Goes ss .check none .deadline
  | deadline : Goes ss .deadline none .decode
  | failed {pc : ReadPc} (started : pc ≠ .notStarted) : Goes ss pc none .exited
  | decrypted {frame : Nat} {pack out : Pack} :
      Goes ss (.decrypt frame pack) (some (.decrypt frame ss pack)) (.filter frame out)
  | decryptFailed {frame : Nat} {pack : Pack} :
      Goes ss (.decrypt frame pack) (some (.decrypt frame ss pack)) .exited
  | refused {frame : Nat} {pack : Pack} :
      Goes ss (.filter frame pack) (some (.filter frame pack)) .exited
  | dropped {frame : Nat} {pack : Pack} :
      Goes ss (.filter frame pack) (some (.filter frame pack)) .select
  | passed {frame : Nat} {pack out : Pack} :
      Goes ss (.filter frame pack) (some (.filter frame pack)) (.handle frame out)
  | handle {frame : Nat} {pack : Pack} :
      Goes ss (.handle frame pack) (some (.handle frame ss pack)) .handling
  | handled : Goes ss .handling none .select

/-- The steps of `tickLoop`. -/
inductive TickPc.Goes (ss : Session) : TickPc → Option ConnEvent → TickPc → Prop
  | tick : Goes ss .select (some (.tick ss)) .ticking
  | ticked : Goes ss .ticking none .select
  | exited {pc : TickPc} (started : pc ≠ .notStarted) : Goes ss pc none .exited

/-- The steps of the function passed to `TurnOff`, for a worker that is connected or not. -/
inductive TurnOffPc.Goes (ss : Session) :
    Bool → TurnOffPc → Option ConnEvent → TurnOffPc → Prop
  | connected : Goes ss true .connected none .onDisconnect
  | notConnected : Goes ss false .connected none .stopTunnels
  | onDisconnect {b : Bool} : Goes ss b .onDisconnect (some (.onDisconnect ss)) .stopTunnels
  | stopTunnels {b : Bool} : Goes ss b .stopTunnels none .closeChan
  | closeChan {b : Bool} : Goes ss b .closeChan none .closeConn
  | closeConn {b : Bool} : Goes ss b .closeConn none .done

/-- The call has come by the worker. -/
def ServerCallPc.holds : ServerCallPc → Bool
  | .delWorker | .push | .send | .stop | .turningOff => true
  | _ => false

/-- The call waits for the function passed to `TurnOff`. -/
def ServerCallPc.isTurningOff : ServerCallPc → Bool
  | .turningOff => true
  | _ => false

namespace ConnRun

/-- Every way in which an action changes the connection. -/
inductive Effect (s : ConnRun) : ConnRun → Prop
  | work {e : Option ConnEvent} {pc : ServePc} (goes : s.work.Goes s.session e pc) :
      Effect s { s.tell e with work := pc }
  | decoded {pack : Pack} (pc : s.work = .decode) (frame : s.frames[s.decoded]? = some pack) :
      Effect s { s with work := .auth s.decoded pack, decoded := s.decoded + 1 }
  | setSession {ss : Session} (pc : s.work = .setSession (some ss)) :
      Effect s { s with session := ss, work := .onConnected }
  | setConnected (pc : s.work = .setConnected) :
      Effect s { s with connected := true, work := .put }
  | put (pc : s.work = .put) (free : s.registered = none) :
      Effect s { s.log .registered with
        manager := (s.manager.putBucket s.worker).2, work := .afterConnect }
  | taken {ow : Worker} {m : WorkerManager} (pc : s.work = .put) (taken : s.registered = some ow) :
      Effect s { s with manager := m, work := .stopOld ow }
  | run (pc : s.work = .run) :
      Effect s { s with work := .running, read := .select, tick := .select }
  | delWorker (pc : s.work = .delWorker) : Effect s { s.delWorker with work := .stop }
  | turnsOff (pc : s.work = .stop) (first : s.off = .notCalled) :
      Effect s { s with off := .connected, work := .turningOff }
  | stopped (pc : s.work = .stop ∧ s.off ≠ .notCalled ∨ s.work = .turningOff ∧ s.off = .done) :
      Effect s { s with work := .afterDisconnect }
  | read {e : Option ConnEvent} {pc : ReadPc} (ctxDone : Bool)
      (goes : s.read.Goes s.session e pc) :
      Effect s { s.tell e with read := pc, ctxDone := ctxDone }
  | readDecoded {pack : Pack} (pc : s.read = .decode) (frame : s.frames[s.decoded]? = some pack) :
      Effect s { s with read := .decrypt s.decoded pack, decoded := s.decoded + 1 }
  | tick {e : Option ConnEvent} {pc : TickPc} (ctxDone : Bool)
      (goes : s.tick.Goes s.session e pc) :
      Effect s { s.tell e with tick := pc, ctxDone := ctxDone }
  | ctxEnd : Effect s { s with ctxDone := true }
  | turnOff {e : Option ConnEvent} {pc : TurnOffPc} (goes : s.off.Goes s.session s.connected e pc) :
      Effect s { s.tell e with off := pc }
  | call {i : Nat} {pc : ServerCallPc} (serverStopping : Bool)
      (notLast : (s.calls i).isTurningOff = false ∨ s.off = .done)
      (next : pc.isTurningOff = false)
      (holds : pc.holds = true → (s.calls i).holds = true ∨ s.registered.isSome = true) :
      Effect s ({ s with serverStopping := serverStopping }.setCall i pc)
  | callDel {i : Nat} (pc : s.calls i = .delWorker) : Effect s (s.delWorker.setCall i .stop)
  | pushed {i : Nat} (pc : s.calls i = .send) : Effect s ((s.log .pushed).setCall i .returned)
  | callTurnsOff {i : Nat} (pc : s.calls i = .stop) (first : s.off = .notCalled) :
      Effect s ({ s with off := .connected }.setCall i .turningOff)
  | manager {m : WorkerManager} (same : m.worker s.wid = s.registered) :
      Effect s { s with manager := m }

variable {s s' : ConnRun}

theorem Effect.ofWork {e : Option ConnEvent} {pc pc' : ServePc} (hpc : s.work = pc)
    (goes : pc.Goes s.session e pc') : Effect s { s.tell e with work := pc' } := .work (hpc ▸ goes)

theorem workStep_effect {ok : Bool} (h : s.workStep s.work ok = some s') : Effect s s' := by
  unfold workStep at h
  split at h
  · next hpc => cases h; exact .ofWork hpc .deadline
  · next hpc =>
    split at h
    · cases h
    · next hframe => cases h; exact .decoded hpc hframe
  · next hpc => cases h; exact .ofWork hpc .auth
  · next hpc => cases h; exact .ofWork hpc .replied
  · next hpc => cases h; exact .setSession hpc
  · next hpc => cases h; exact .ofWork hpc .onConnected
  · next hpc => cases h; exact .ofWork hpc .connected
  · next hpc => cases h; exact .ofWork hpc .deadlineFailed
  · next hpc => cases h; exact .ofWork hpc .decodeFailed
  · next hpc => cases h; exact .ofWork hpc .authFailed
  · next hpc => cases h; exact .ofWork hpc .encodeFailed
  · next hpc => cases h; exact .ofWork hpc .nilSession
  · next hpc => cases h; exact .ofWork hpc .refused
  · next hpc => cases h; exact .setConnected hpc
  · next hpc =>
    have hfst := s.manager.putBucket_fst s.worker
    split at h
    · next m hput =>
      cases h
      rw [hput] at hfst
      have heffect := Effect.put hpc hfst.symm
      rw [hput] at heffect
      exact heffect
    · next ow m hput =>
      cases h
      rw [hput] at hfst
      exact .taken hpc hfst.symm
  · next hpc => cases h; exact .ofWork hpc .stoppedOld
  · next hpc => cases h; exact .ofWork hpc .stopOldFailed
  · next hpc => cases h; exact .ofWork hpc .afterConnect
  · next hpc => cases h; exact .ofWork hpc .afterConnectFailed
  · next hpc => cases h; exact .run hpc
  · next hpc =>
    obtain ⟨-, ⟨⟩⟩ := Option.ite_none_right_eq_some.mp h
    exact .ofWork hpc .ran
  · next hpc => cases h; exact .delWorker hpc
  · next hpc =>
    split at h
    · next hfirst => cases h; exact .turnsOff hpc hfirst
    · next hlater => cases h; exact .stopped (Or.inl ⟨hpc, hlater⟩)
  · next hpc =>
    obtain ⟨hdone, ⟨⟩⟩ := Option.ite_none_right_eq_some.mp h
    exact .stopped (Or.inr ⟨hpc, hdone⟩)
  · next hpc => cases h; exact .ofWork hpc .afterDisconnect
  · cases h

theorem Effect.ofRead {e : Option ConnEvent} {pc pc' : ReadPc} (ctxDone : Bool) (hpc : s.read = pc)
    (goes : pc.Goes s.session e pc') :
    Effect s { s.tell e with read := pc', ctxDone := ctxDone } := .read ctxDone (hpc ▸ goes)

/-- `readLoop` goes on or returns. -/
theorem Effect.readNext {e : Option ConnEvent} {pc pc' : ReadPc} {ok : Bool} (hpc : s.read = pc)
    (goes : pc.Goes s.session e pc') (exits : pc.Goes s.session e .exited) :
    Effect s ((s.tell e).readNext ok pc') := by
  cases ok with
  | true =>
    have hctx :
        { s.tell e with read := pc', ctxDone := s.ctxDone } = (s.tell e).readNext true pc' := by
      cases e <;> rfl
    exact hctx ▸ .ofRead s.ctxDone hpc goes
  | false => exact .ofRead true hpc exits

theorem readStep_effect {ok : Bool} (h : s.readStep s.read ok = some s') : Effect s s' := by
  unfold readStep at h
  split at h
  · next hpc => cases h; exact .readNext (e := none) hpc .select (.failed nofun)
  · next hpc => cases h; exact .readNext (e := none) hpc .check (.failed nofun)
  · next hpc => cases h; exact .readNext (e := none) hpc .deadline (.failed nofun)
  · next hpc =>
    split at h
    · cases h
    · next hframe => cases h; exact .readDecoded hpc hframe
  · next hpc => cases h; exact .ofRead (e := none) true hpc (.failed nofun)
  · next hpc => cases h; exact .ofRead (e := some _) true hpc .decryptFailed
  · next hpc => cases h; exact .ofRead (e := some _) s.ctxDone hpc .handle
  · next hpc => cases h; exact .readNext (e := none) hpc .handled (.failed nofun)
  · cases h

theorem filterStep_effect {r : Filtered} (h : s.filterStep s.read r = some s') : Effect s s' := by
  unfold filterStep at h
  split at h
  · next hpc => cases h; exact .ofRead (e := some _) true hpc .refused
  · next hpc => cases h; exact .ofRead (e := some _) s.ctxDone hpc .dropped
  · next hpc => cases h; exact .ofRead (e := some _) s.ctxDone hpc .passed
  · cases h

theorem tickStep_effect {ok : Bool} (h : s.tickStep s.tick ok = some s') : Effect s s' := by
  unfold tickStep at h
  split at h
  · next hpc => cases h; exact .tick (e := some _) s.ctxDone (hpc ▸ .tick)
  · next hpc =>
    obtain ⟨-, ⟨⟩⟩ := Option.ite_none_right_eq_some.mp h
    exact .tick (e := none) s.ctxDone (hpc ▸ .exited nofun)
  · next hpc => cases h; exact .tick (e := none) s.ctxDone (hpc ▸ .ticked)
  · next hpc => cases h; exact .tick (e := none) true (hpc ▸ .exited nofun)
  · cases h

theorem turnOffStep_effect (h : s.turnOffStep = some s') : Effect s s' := by
  have hgoes : ∀ {off e pc b}, s.off = off → s.connected = b → off.Goes s.session b e pc →
      Effect s { s.tell e with off := pc } := by
    rintro off e pc b rfl rfl hgoes
    exact .turnOff hgoes
  unfold turnOffStep at h
  split at h
  · cases h
  · cases h
  · next hoff =>
    by_cases hconn : s.connected = true
    · rw [if_pos hconn] at h
      cases h
      exact hgoes (e := none) hoff hconn .connected
    · rw [if_neg hconn] at h
      cases h
      exact hgoes (e := none) hoff (Bool.eq_false_iff.mpr hconn) .notConnected
  · next hoff => cases h; exact hgoes (e := some _) hoff rfl .onDisconnect
  · next hoff => cases h; exact hgoes (e := none) hoff rfl .stopTunnels
  · next hoff => cases h; exact hgoes (e := none) hoff rfl .closeChan
  · next hoff => cases h; exact hgoes (e := none) hoff rfl .closeConn

/-- A step of a call that does not change the server. -/
theorem Effect.ofCall {i : Nat} {pc pc' : ServerCallPc} (hpc : s.calls i = pc)
    (notLast : pc.isTurningOff = false ∨ s.off = .done) (next : pc'.isTurningOff = false)
    (holds : pc'.holds = true → pc.holds = true ∨ s.registered.isSome = true) :
    Effect s (s.setCall i pc') := by
  subst hpc
  exact .call s.serverStopping notLast next holds

theorem callStep_effect {i : Nat} {ok : Bool} (h : s.callStep i (s.calls i) ok = some s') :
    Effect s s' := by
  unfold callStep at h
  split at h
  · next hpc => cases h; exact .ofCall hpc (Or.inl rfl) (by split <;> rfl) (by split <;> nofun)
  · next hpc =>
    cases h
    refine .ofCall hpc (Or.inl rfl) (by split <;> rfl) fun hholds => Or.inr ?_
    by_contra hnone
    rw [if_neg hnone] at hholds
    cases hholds
  · next hpc => cases h; exact .callDel hpc
  · next hpc =>
    obtain ⟨hreg, ⟨⟩⟩ := Option.ite_none_right_eq_some.mp h
    exact .ofCall hpc (Or.inl rfl) rfl fun _ => Or.inr hreg
  · next hpc => cases h; exact .ofCall hpc (Or.inl rfl) rfl nofun
  · next hpc =>
    obtain ⟨hreg, ⟨⟩⟩ := Option.ite_none_right_eq_some.mp h
    exact .ofCall hpc (Or.inl rfl) rfl fun _ => Or.inr hreg
  · next hpc => cases h; exact .ofCall hpc (Or.inl rfl) rfl nofun
  · next hpc =>
    cases h
    exact .ofCall hpc (Or.inl rfl) (by split <;> rfl) fun _ => Or.inl rfl
  · next hpc => cases h; exact .pushed hpc
  · next hpc =>
    split at h
    · next hfirst => cases h; exact .callTurnsOff hpc hfirst
    · cases h; exact .ofCall hpc (Or.inl rfl) rfl nofun
  · next hpc =>
    obtain ⟨hdone, ⟨⟩⟩ := Option.ite_none_right_eq_some.mp h
    exact .ofCall hpc (Or.inr hdone) rfl nofun
  · cases h

theorem step_effect {a : ConnAct} (h : s.step a = some s') : Effect s s' := by
  cases a with
  | work ok => exact workStep_effect h
  | authOk ss =>
    obtain ⟨hpc, ⟨⟩⟩ := Option.ite_none_right_eq_some.mp h
    exact .ofWork hpc .authOk
  | read ok => exact readStep_effect h
  | decrypted out =>
    simp only [step] at h
    split at h
    · next hpc => cases h; exact .ofRead (e := some _) s.ctxDone hpc .decrypted
    · cases h
  | filtered r => exact filterStep_effect h
  | tick ok => exact tickStep_effect h
  | ctxEnd => cases h; exact .ctxEnd
  | turnOff => exact turnOffStep_effect h
  | disconnect i =>
    obtain ⟨hpc, ⟨⟩⟩ := Option.ite_none_right_eq_some.mp h
    exact .ofCall hpc (Or.inl rfl) rfl nofun
  | stop i =>
    obtain ⟨hpc, ⟨⟩⟩ := Option.ite_none_right_eq_some.mp h
    refine .call true (Or.inl ?_) (by split <;> rfl) (by split <;> nofun)
    rw [hpc]
    rfl
  | push i =>
    obtain ⟨hpc, ⟨⟩⟩ := Option.ite_none_right_eq_some.mp h
    exact .ofCall hpc (Or.inl rfl) (by split <;> rfl) (by split <;> nofun)
  | call i ok => exact callStep_effect h
  | otherPut w =>
    simp only [step] at h
    split at h
    · cases h
    · next hne =>
      cases h
      refine .manager ?_
      rw [WorkerManager.worker_putBucket, if_neg fun he => hne he.symm]
      rfl
  | otherDel wid =>
    simp only [step] at h
    split at h
    · cases h
    · next hne =>
      cases h
      refine .manager ?_
      rw [WorkerManager.worker_delBucket, if_neg fun he => hne he.symm]
      rfl

end ConnRun

end FabricaNet.Internal
