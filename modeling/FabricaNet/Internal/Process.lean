import FabricaNet.Internal.Listener
import FabricaNet.Internal.WorkerManager
import FabricaNet.Lib.Run

/-!
# Several servers in one process

Every server has a listener with its own `ConnIDGenerator` and a `WorkerManager`, and all of them
share the package variable `uidWidMap`. This module gives the process a step function whose atomic
steps are the single operations on these maps, so that runs interleave `Put`, `Del` and `Push`
calls between any two of their operations.

A call is a `Call`: the operation it is about to make, with the values it has read so far.
`Call.next` makes that operation.
-/

namespace FabricaNet.Internal

open Go Xnet Lib

/-- What `BaseServer` and its listener hold, as far as the registry is concerned. -/
structure Server where
  gen : ConnIDGenerator
  manager : WorkerManager
  stopping : Bool

/-- What a server is built from. -/
structure ServerConf where
  netType : NetType
  bucket : BucketConf

/-- `NewServer` with the listener of that net type. -/
def newServer (c : ServerConf) : Server :=
  { gen := newConnIDGenerator c.netType.toInt64
    manager := newWorkerManager c.bucket
    stopping := false }

/-- A call in progress. Servers are given by their position in the process. -/
inductive Call where
  /-- `Put`: `LoadOrStore` on the bucket is next. -/
  | put (m : Nat) (w : Worker)
  /-- `Put`: `uidWidMap.Store` is next. -/
  | putIndex (m : Nat) (w : Worker)
  /-- `Put`: `size.Add(1)` is next. -/
  | putSize (m : Nat)
  /-- `Del`: `uidWidMap.Delete` is next. -/
  | del (m : Nat) (wid : UInt64)
  /-- `Del`: `Delete` on the bucket is next. -/
  | delBucket (m : Nat) (wid : UInt64)
  /-- `Del`: `size.Add(-1)` is next. -/
  | delSize (m : Nat)
  /-- `BaseServer.Push`: the checks are next. -/
  | push (m : Nat) (uid : Int64) (pack : Pack)
  /-- `GetByUID` inside `Push`: `uidWidMap.Load` is next. -/
  | pushIndex (m : Nat) (uid : Int64) (pack : Pack)
  /-- `GetByUID` inside `Push`: `Load` on the bucket is next. -/
  | pushBucket (m : Nat) (uid : Int64) (wid : UInt64) (pack : Pack)
  /-- `Worker.Push`: the checks are next. -/
  | pushWorker (uid : Int64) (w : Worker) (pack : Pack)
  /-- `Worker.Push`: the send on `sendChan` is next. -/
  | pushSend (uid : Int64) (w : Worker) (pack : Pack)
  | returned (err : Option Err)
deriving DecidableEq, Repr

/-- A pack on the `sendChan` of a worker, with the user id that `Push` was called with. -/
structure Delivery where
  uid : Int64
  worker : Worker
  pack : Pack

/-- The process. `workers` and `sent` only grow. -/
structure Process where
  uidWidMap : UidWidMap
  servers : List Server
  /-- Every worker built so far, with the server that accepted its connection. -/
  workers : List (Nat × Worker)
  /-- The workers whose `OnStopping` is true, by their `ref`. -/
  stopped : List Nat
  calls : List Call
  /-- Every pack sent on a `sendChan`. When the channel has room and when it is closed is not
  looked at here: a send that `Push` makes is a step whenever `Push` has come that far. -/
  sent : List Delivery

namespace Process

/-- No connection yet, and no entry in the index. -/
def init (confs : List ServerConf) : Process :=
  { uidWidMap := SyncMap.empty
    servers := confs.map newServer
    workers := []
    stopped := []
    calls := []
    sent := [] }

/-- The process with the manager of one server replaced. -/
def setManager (p : Process) (m : Nat) (srv : Server) (manager : WorkerManager) : Process :=
  { p with servers := p.servers.set m { srv with manager := manager } }

end Process

/-- The next operation of a call: the process and the call after it. -/
def Call.next (p : Process) : Call → Option (Process × Call)
  | .put m w =>
    match p.servers[m]? with
    | none => none
    | some srv =>
      match srv.manager.putBucket w with
      -- the id is taken: `Put` returns the worker found and does not touch the index
      | (some _, manager) => some (p.setManager m srv manager, .returned none)
      | (none, manager) => some (p.setManager m srv manager, .putIndex m w)
  | .putIndex m w => some ({ p with uidWidMap := storeIndex p.uidWidMap w }, .putSize m)
  | .putSize m =>
    match p.servers[m]? with
    | none => none
    | some srv => some (p.setManager m srv (srv.manager.addSize 1), .returned none)
  | .del m wid => some ({ p with uidWidMap := deleteIndex p.uidWidMap wid }, .delBucket m wid)
  | .delBucket m wid =>
    match p.servers[m]? with
    | none => none
    | some srv => some (p.setManager m srv (srv.manager.delBucket wid), .delSize m)
  | .delSize m =>
    match p.servers[m]? with
    | none => none
    | some srv => some (p.setManager m srv (srv.manager.addSize (-1)), .returned none)
  | .push m uid pack =>
    match p.servers[m]? with
    | none => none
    | some srv =>
      if srv.stopping then some (p, .returned (some errIsStopped))
      else if pack.length = 0 then some (p, .returned (some (.new "push msg len <= 0")))
      else some (p, .pushIndex m uid pack)
  | .pushIndex m uid pack =>
    match p.uidWidMap.load (.int64 uid) with
    | none => some (p, .returned (some errWorkerNotFound))
    | some wid => some (p, .pushBucket m uid wid pack)
  | .pushBucket m uid wid pack =>
    match p.servers[m]? with
    | none => none
    | some srv =>
      match srv.manager.worker wid with
      | none => some (p, .returned (some errWorkerNotFound))
      | some w => some (p, .pushWorker uid w pack)
  | .pushWorker uid w pack =>
    if w.ref ∈ p.stopped then some (p, .returned (some (.new "worker is stopping")))
    else if pack.length = 0 then some (p, .returned (some (.new "push msg len <= 0")))
    else some (p, .pushSend uid w pack)
  | .pushSend uid w pack =>
    some ({ p with sent := p.sent ++ [⟨uid, w, pack⟩] }, .returned none)
  | .returned _ => none

/-- What can happen in the process. -/
inductive Action where
  /-- The listener of server `m` accepts a connection; its session will be `ss`. -/
  | accept (m : Nat) (ss : Option Session)
  /-- The worker `ref` is put in the manager of the server that accepted it. -/
  | put (ref : Nat)
  | del (m : Nat) (wid : UInt64)
  | push (m : Nat) (uid : Int64) (pack : Pack)
  /-- Call `i` makes its next operation. -/
  | next (i : Nat)
  | stopServer (m : Nat)
  | stopWorker (ref : Nat)
deriving DecidableEq, Repr

namespace Process

/-- The step function of the process. -/
def step (p : Process) : Action → Option Process
  | .accept m ss =>
    match p.servers[m]? with
    | none => none
    | some srv =>
      let (id, gen) := srv.gen.next
      some { p with
        servers := p.servers.set m { srv with gen := gen }
        workers := p.workers ++ [(m, ⟨p.workers.length, id, ss⟩)] }
  | .put ref =>
    match p.workers[ref]? with
    | none => none
    | some (m, w) => some { p with calls := p.calls ++ [.put m w] }
  | .del m wid => some { p with calls := p.calls ++ [.del m wid] }
  | .push m uid pack => some { p with calls := p.calls ++ [.push m uid pack] }
  | .next i =>
    match p.calls[i]? with
    | none => none
    | some c =>
      match c.next p with
      | none => none
      | some (p', c') => some { p' with calls := p'.calls.set i c' }
  | .stopServer m =>
    match p.servers[m]? with
    | none => none
    | some srv => some { p with servers := p.servers.set m { srv with stopping := true } }
  | .stopWorker ref => some { p with stopped := ref :: p.stopped }

/-- The number of connections that the listener of server `m` accepts in a run. -/
def accepts (m : Nat) (as : List Action) : Nat :=
  as.countP fun
    | .accept m' _ => m' == m
    | _ => false

theorem accepts_le_length (m : Nat) (as : List Action) : accepts m as ≤ as.length :=
  List.countP_le_length ..

end Process

end FabricaNet.Internal
