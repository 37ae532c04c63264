import FabricaNet.Frame.Lane
import FabricaNet.Internal.Worker

/-!
# The two ends of a connection

A client's `Dialog` (`internal/dialog.go`) and the server's `Worker` (`internal/worker.go`) on one
connection, from the first byte on, as steps of the goroutines of both sides:

* `Dialog.start` with `handshake`, any number of application goroutines that call `WaitAuthed` and
  then `Send`, `receiveLoop`, and the application that receives from `Receive`
* the worker's `handshake`, its `readLoop`, and its queue with any number of `Push` calls and
  `sendLoop`, which are those of `FabricaNet/Internal/Worker.lean`

Each direction is a `Lane`. `Encode` is made of its writes; `Send` holds no lock around it, so the
writes of several application goroutines interleave.

## What is left open

`handshakePack`, `Auth` and `AuthFunc` return what they like, the write filter makes of a pack what
it likes, and every call that can fail may fail. Neither side is stopped while the connection is
looked at. What `work` does between the handshake and `Run` is in
`FabricaNet/Internal/Connection.lean`; a `Push` call here may be made at any time.
-/

namespace FabricaNet.Internal

open Go Xnet Lib FabricaNet.Frame

/-! ## The client -/

/-- Where `Dialog.start` is: the part that comes next. -/
inductive DialogPc where
  | handshakePack
  /-- the check of `OnStopping`, in `Send` of the handshake pack -/
  | check (pack : Pack)
  | encrypt (pack : Pack)
  | encoding (pc : EncodePc)
  /-- `Decode` of the reply -/
  | decode
  | authFunc (reply : Pack)
  /-- `receiveLoop` is started -/
  | startLoop
  /-- `close(d.authed)` -/
  | close
  /-- in `eg.Wait` -/
  | waiting
  /-- returned an error -/
  | failed

/-- Where an application goroutine is. -/
inductive AppPc where
  /-- in `WaitAuthed` -/
  | wait (pack : Pack)
  /-- the check of `OnStopping`, in `Send` -/
  | check (pack : Pack)
  | encrypt (pack : Pack)
  | encoding (pc : EncodePc)
  | returned

/-- Where `receiveLoop` is, and where the worker's `readLoop` is. -/
inductive ReceivePc where
  | notStarted
  | decode
  | decrypt
  /-- the send on `receivedPackChan`; in the worker, the filter and the handler -/
  | deliver (pack : Pack)
  | exited

/-- A `Dialog` and the goroutines that use it. -/
structure Client where
  dialog : DialogPc
  /-- `d.session`, of which only the cryptor is used -/
  session : Cryptor
  /-- the session that `AuthFunc` has returned without an error -/
  negotiated : Option Cryptor
  /-- the channel `authed` is closed -/
  authed : Bool
  /-- the application goroutines that have called `WaitAuthed` -/
  apps : List AppPc
  receive : ReceivePc
  /-- `receivedPackChan` -/
  inbox : Chan Pack
  /-- every pack that was sent on it -/
  received : List Pack

/-- What `newDialog` builds. -/
def Client.init : Client where
  dialog := .handshakePack
  session := newUnCryptor
  negotiated := none
  authed := false
  apps := []
  receive := .notStarted
  inbox := Chan.make 1024
  received := []

inductive ClientAct where
  /-- `handshakePack` returns a pack or an error -/
  | handshakePack (pack : Option Pack)
  /-- the next part of `start`; `n` is for `Encrypt` -/
  | dialog (ok : Bool) (n : Nat)
  | dialogDecode (w : Kcp.Stats × World)
  | authFunc (ss : Cryptor) (ok : Bool)
  /-- another application goroutine calls `WaitAuthed`, and then `Send` with this pack -/
  | app (pack : Pack)
  | appStep (i : Nat) (ok : Bool) (n : Nat)
  | receiveDecode (w : Kcp.Stats × World)
  | receive (ok : Bool)
  /-- the application receives from `Receive` -/
  | take

/-! ## The server -/

/-- Where the worker's `Start` and `Run` are. -/
inductive HandshakePc where
  | decode
  | auth (pack : Pack)
  | encoding (pc : EncodePc) (ss : Cryptor)
  /-- `w.session = ss` -/
  | setSession (ss : Cryptor)
  /-- what comes between the handshake and `Run` -/
  | ready
  | running
  /-- returned an error -/
  | failed

/-- A `Worker` and its goroutines. -/
structure WorkerEnd where
  work : HandshakePc
  /-- `w.session`, of which only the cryptor is used -/
  session : Cryptor
  /-- the session that `Auth` has returned without an error -/
  negotiated : Option Cryptor
  /-- the queue and `sendLoop` -/
  worker : WorkerRun
  /-- every pack that was sent on `sendChan` -/
  accepted : List Item
  /-- the call of `Encode` that `sendLoop` is in -/
  encoder : Option EncodePc
  read : ReceivePc

/-- What `newWorker` builds. -/
def WorkerEnd.init (replyChanSize : Nat) : WorkerEnd where
  work := .decode
  session := newUnCryptor
  negotiated := none
  worker := WorkerRun.init replyChanSize
  accepted := []
  encoder := none
  read := .notStarted

inductive WorkerEndAct where
  | workDecode (w : Kcp.Stats × World)
  /-- `Auth` returns a reply and a session, or an error -/
  | auth (r : Option (Pack × Cryptor))
  /-- the next part of `Start` -/
  | work (ok : Bool)
  | run
  /-- a step of a `Push` call, or of `sendLoop` outside of `write` -/
  | worker (a : WorkerAct)
  /-- `write` calls the filter and `Encrypt`; `n` is for both -/
  | encrypt (n : Nat)
  /-- the next step of `Encode` in `write` -/
  | encode
  | readDecode (w : Kcp.Stats × World)
  | read (ok : Bool)

/-! ## Both -/

structure LinkConf where
  protocol : Protocol
  replyChanSize : Nat
  writeFilter : Nat → Pack → Except Err Pack

structure LinkRun where
  client : Client
  server : WorkerEnd
  /-- from the client to the server -/
  c2s : Lane
  /-- from the server to the client -/
  s2c : Lane

inductive LinkAct where
  | client (a : ClientAct)
  | server (a : WorkerEndAct)

namespace LinkRun

def init (c : LinkConf) : LinkRun where
  client := Client.init
  server := WorkerEnd.init c.replyChanSize
  c2s := Lane.init c.protocol
  s2c := Lane.init c.protocol

/-! ### Steps of the client -/

/-- `start` after a step of `Encode`. -/
def dialogAfter : EncodeNext → DialogPc
  | .next pc => .encoding pc
  | .done => .decode
  | .failed => .failed

/-- `Send` after a step of `Encode`. -/
def appAfter : EncodeNext → AppPc
  | .next pc => .encoding pc
  | .done | .failed => .returned

def setDialog (s : LinkRun) (pc : DialogPc) : LinkRun :=
  { s with client := { s.client with dialog := pc } }

def setApp (s : LinkRun) (i : Nat) (pc : AppPc) : LinkRun :=
  { s with client := { s.client with apps := s.client.apps.set i pc } }

def setReceive (s : LinkRun) (pc : ReceivePc) : LinkRun :=
  { s with client := { s.client with receive := pc } }

/-- The next part of `start`. -/
def dialogStep (s : LinkRun) (n : Nat) : DialogPc → Bool → Option LinkRun
  | .check pack, true => some (s.setDialog (.encrypt pack))
  | .encrypt pack, true =>
    match s.client.session.encrypt n pack with
    | .error _ => some (s.setDialog .failed)
    | .ok bytes => some (s.setDialog (.encoding (.header ⟨false, pack, s.client.session, bytes⟩)))
  | .encoding pc, true =>
    let (lane, next) := s.c2s.encodeStep pc
    some ({ s with c2s := lane }.setDialog (dialogAfter next))
  | .startLoop, true => some ((s.setReceive .decode).setDialog .close)
  | .close, true =>
    some ({ s with client := { s.client with authed := true } }.setDialog .waiting)
  | .check _, false | .decode, false => some (s.setDialog .failed)
  | _, _ => none

/-- The next part of an application goroutine. -/
def appStep (s : LinkRun) (i n : Nat) : AppPc → Bool → Option LinkRun
  | .wait pack, true => if s.client.authed then some (s.setApp i (.check pack)) else none
  | .check pack, true => some (s.setApp i (.encrypt pack))
  | .check _, false => some (s.setApp i .returned)
  | .encrypt pack, true =>
    match s.client.session.encrypt n pack with
    | .error _ => some (s.setApp i .returned)
    | .ok bytes => some (s.setApp i (.encoding (.header ⟨true, pack, s.client.session, bytes⟩)))
  | .encoding pc, true =>
    let (lane, next) := s.c2s.encodeStep pc
    some ({ s with c2s := lane }.setApp i (appAfter next))
  | _, _ => none

/-- The next part of `receiveLoop`. -/
def receiveStep (s : LinkRun) : ReceivePc → Bool → Option LinkRun
  | .decode, false => some (s.setReceive .exited)
  | .decrypt, true =>
    match s.s2c.loopDecrypt s.client.session with
    | none => none
    | some (.error _, lane) => some ({ s with s2c := lane }.setReceive .exited)
    | some (.ok pack, lane) => some ({ s with s2c := lane }.setReceive (.deliver pack))
  | .deliver pack, true =>
    match s.client.inbox.send pack with
    | .done inbox => some ({ s with client := { s.client with
        inbox := inbox, received := s.client.received ++ [pack] } }.setReceive .decode)
    | _ => none
  | _, _ => none

def clientStep (s : LinkRun) : ClientAct → Option LinkRun
  | .handshakePack pack =>
    match s.client.dialog, pack with
    | .handshakePack, some pack => some (s.setDialog (.check pack))
    | .handshakePack, none => some (s.setDialog .failed)
    | _, _ => none
  | .dialog ok n => s.dialogStep n s.client.dialog ok
  | .dialogDecode w =>
    match s.client.dialog, s.s2c.decode w with
    | .decode, some (reply, lane) => some ({ s with s2c := lane }.setDialog (.authFunc reply))
    | _, _ => none
  | .authFunc ss ok =>
    match s.client.dialog, ok with
    -- `d.session` is assigned in both cases
    | .authFunc _, true => some ({ s with client := { s.client with
        session := ss, negotiated := some ss } }.setDialog .startLoop)
    | .authFunc _, false =>
      some ({ s with client := { s.client with session := ss } }.setDialog .failed)
    | _, _ => none
  | .app pack => some { s with client := { s.client with apps := s.client.apps ++ [.wait pack] } }
  | .appStep i ok n =>
    match s.client.apps[i]? with
    | some pc => s.appStep i n pc ok
    | none => none
  | .receiveDecode w =>
    match s.client.receive, s.s2c.loopDecode w with
    | .decode, some lane => some ({ s with s2c := lane }.setReceive .decrypt)
    | _, _ => none
  | .receive ok => s.receiveStep s.client.receive ok
  | .take =>
    match s.client.inbox.recv with
    | .got _ inbox => some { s with client := { s.client with inbox := inbox } }
    | _ => none

/-! ### Steps of the server -/

/-- `handshake` after a step of `Encode`. -/
def workAfter (ss : Cryptor) : EncodeNext → HandshakePc
  | .next pc => .encoding pc ss
  | .done => .setSession ss
  | .failed => .failed

def setWork (s : LinkRun) (pc : HandshakePc) : LinkRun :=
  { s with server := { s.server with work := pc } }

def setRead (s : LinkRun) (pc : ReceivePc) : LinkRun :=
  { s with server := { s.server with read := pc } }

/-- A step of the queue or of `sendLoop`. -/
def workerStep (s : LinkRun) (a : WorkerAct) (encoder : Option EncodePc) : Option LinkRun :=
  match s.server.worker.step a with
  | none => none
  | some worker => some { s with server := { s.server with worker := worker, encoder := encoder } }

/-- The packs that a step of the worker sends on `sendChan`. -/
def sentBy (w w' : WorkerRun) : WorkerAct → List Item
  | .pushStep i | .handOff i =>
    match w.pushes i, w'.pushes i with
    | .send out, .sent _ => [(i, out)]
    | _, _ => []
  | _ => []

/-- The steps of a `Push` call, and those of `sendLoop` outside of `write`. -/
def ofQueue : WorkerAct → Bool
  | .push _ _ | .pushStep _ | .cancel | .loopDone | .loopRecv | .handOff _ => true
  | _ => false

/-- The next part of the handshake. -/
def workStep (s : LinkRun) : HandshakePc → Bool → Option LinkRun
  | .decode, false => some (s.setWork .failed)
  | .encoding pc ss, true =>
    let (lane, next) := s.s2c.encodeStep pc
    some ({ s with s2c := lane }.setWork (workAfter ss next))
  | .setSession ss, true =>
    some ({ s with server := { s.server with session := ss } }.setWork .ready)
  | .ready, false => some (s.setWork .failed)
  | _, _ => none

/-- `write` up to its call of `Encode`. -/
def encryptStep (c : LinkConf) (s : LinkRun) (n : Nat) : Option LinkRun :=
  match s.server.worker.loop, s.server.encoder with
  | .writing item, none =>
    match c.writeFilter n item.2 with
    | .error _ => s.workerStep (.write false) none
    | .ok out =>
      match s.server.session.encrypt n out with
      | .error _ => s.workerStep (.write false) none
      | .ok bytes =>
        s.workerStep .encode (some (.header ⟨true, out, s.server.session, bytes⟩))
  | _, _ => none

/-- The next step of `Encode` in `write`. -/
def encodeStep (s : LinkRun) : Option LinkRun :=
  match s.server.encoder with
  | none => none
  | some pc =>
    match s.s2c.encodeStep pc with
    | (lane, .next pc) =>
      some { s with s2c := lane, server := { s.server with encoder := some pc } }
    | (lane, .done) => { s with s2c := lane }.workerStep (.write true) none
    | (lane, .failed) => { s with s2c := lane }.workerStep (.write false) none

/-- The next part of `readLoop`. -/
def readStep (s : LinkRun) : ReceivePc → Bool → Option LinkRun
  | .decode, false => some (s.setRead .exited)
  | .decrypt, true =>
    match s.c2s.loopDecrypt s.server.session with
    | none => none
    | some (.error _, lane) => some ({ s with c2s := lane }.setRead .exited)
    | some (.ok pack, lane) => some ({ s with c2s := lane }.setRead (.deliver pack))
  | .deliver _, ok => some (s.setRead (if ok then .decode else .exited))
  | _, _ => none

def serverStep (c : LinkConf) (s : LinkRun) : WorkerEndAct → Option LinkRun
  | .workDecode w =>
    match s.server.work, s.c2s.decode w with
    | .decode, some (pack, lane) => some ({ s with c2s := lane }.setWork (.auth pack))
    | _, _ => none
  | .auth r =>
    match s.server.work, r with
    -- the reply is encoded as it is
    | .auth _, some (out, ss) =>
      some ({ s with server := { s.server with negotiated := some ss } }.setWork
        (.encoding (.header ⟨false, out, s.server.session, out⟩) ss))
    | .auth _, none => some (s.setWork .failed)
    | _, _ => none
  | .work ok => s.workStep s.server.work ok
  | .run =>
    match s.server.work with
    | .ready => ((s.setWork .running).setRead .decode).workerStep .run none
    | _ => none
  | .worker a =>
    if ofQueue a = true then
      match s.server.worker.step a with
      | none => none
      | some worker => some { s with server := { s.server with
          worker := worker, accepted := s.server.accepted ++ sentBy s.server.worker worker a } }
    else none
  | .encrypt n => s.encryptStep c n
  | .encode => s.encodeStep
  | .readDecode w =>
    match s.server.read, s.c2s.loopDecode w with
    | .decode, some lane => some ({ s with c2s := lane }.setRead .decrypt)
    | _, _ => none
  | .read ok => s.readStep s.server.read ok

def step (c : LinkConf) (s : LinkRun) : LinkAct → Option LinkRun
  | .client a => s.clientStep a
  | .server a => s.serverStep c a

end LinkRun

/-! ## What a step does -/

/-- The parts of `start` that come after one another without the lanes. -/
inductive DialogPc.Goes (session : Cryptor) : DialogPc → DialogPc → Prop
  | pack (pack : Pack) : Goes session .handshakePack (.check pack)
  | check (pack : Pack) : Goes session (.check pack) (.encrypt pack)
  | encrypt {n : Nat} {pack bytes : Pack} (encrypt : session.encrypt n pack = .ok bytes) :
      Goes session (.encrypt pack) (.encoding (.header ⟨false, pack, session, bytes⟩))
  | packFails : Goes session .handshakePack .failed
  | checkFails (pack : Pack) : Goes session (.check pack) .failed
  | encryptFails (pack : Pack) : Goes session (.encrypt pack) .failed
  | decodeFails : Goes session .decode .failed

/-- The parts of an application goroutine that come after one another without the lane. -/
inductive AppPc.Goes (c : Client) : AppPc → AppPc → Prop
  | authed (pack : Pack) (authed : c.authed = true) : Goes c (.wait pack) (.check pack)
  | check (pack : Pack) : Goes c (.check pack) (.encrypt pack)
  | encrypt {n : Nat} {pack bytes : Pack} (encrypt : c.session.encrypt n pack = .ok bytes) :
      Goes c (.encrypt pack) (.encoding (.header ⟨true, pack, c.session, bytes⟩))
  | checkFails (pack : Pack) : Goes c (.check pack) .returned
  | encryptFails (pack : Pack) : Goes c (.encrypt pack) .returned

/-- `receiveLoop`, or `readLoop`, after `Decrypt`. -/
def ReceivePc.opened : Except Err Pack → ReceivePc
  | .error _ => .exited
  | .ok pack => .deliver pack

namespace LinkRun

/-- Every way in which a step of the client changes the two ends. -/
inductive ClientEffect (s : LinkRun) : ClientAct → LinkRun → Prop
  | dialog {a : ClientAct} {pc : DialogPc} (goes : s.client.dialog.Goes s.client.session pc) :
      ClientEffect s a (s.setDialog pc)
  | dialogEncode {n : Nat} {pc : EncodePc} {lane : Lane} {next : EncodeNext}
      (was : s.client.dialog = .encoding pc) (step : s.c2s.encodeStep pc = (lane, next)) :
      ClientEffect s (.dialog true n) ({ s with c2s := lane }.setDialog (dialogAfter next))
  | dialogDecode {w : Kcp.Stats × World} {reply : Pack} {lane : Lane}
      (pc : s.client.dialog = .decode) (decode : s.s2c.decode w = some (reply, lane)) :
      ClientEffect s (.dialogDecode w) ({ s with s2c := lane }.setDialog (.authFunc reply))
  | authFunc {reply : Pack} (ss : Cryptor) (pc : s.client.dialog = .authFunc reply) :
      ClientEffect s (.authFunc ss true) ({ s with client := { s.client with
        session := ss, negotiated := some ss } }.setDialog .startLoop)
  | authFails {reply : Pack} (ss : Cryptor) (pc : s.client.dialog = .authFunc reply) :
      ClientEffect s (.authFunc ss false)
        ({ s with client := { s.client with session := ss } }.setDialog .failed)
  | startLoop {n : Nat} (pc : s.client.dialog = .startLoop) :
      ClientEffect s (.dialog true n) ((s.setReceive .decode).setDialog .close)
  | close {n : Nat} (pc : s.client.dialog = .close) :
      ClientEffect s (.dialog true n)
        ({ s with client := { s.client with authed := true } }.setDialog .waiting)
  | spawn (pack : Pack) :
      ClientEffect s (.app pack)
        { s with client := { s.client with apps := s.client.apps ++ [.wait pack] } }
  | app {i n : Nat} {ok : Bool} {pc pc' : AppPc} (was : s.client.apps[i]? = some pc)
      (goes : pc.Goes s.client pc') : ClientEffect s (.appStep i ok n) (s.setApp i pc')
  | appEncode {i n : Nat} {pc : EncodePc} {lane : Lane} {next : EncodeNext}
      (was : s.client.apps[i]? = some (.encoding pc)) (step : s.c2s.encodeStep pc = (lane, next)) :
      ClientEffect s (.appStep i true n) ({ s with c2s := lane }.setApp i (appAfter next))
  | receiveDecode {w : Kcp.Stats × World} {lane : Lane} (pc : s.client.receive = .decode)
      (decode : s.s2c.loopDecode w = some lane) :
      ClientEffect s (.receiveDecode w) ({ s with s2c := lane }.setReceive .decrypt)
  | receiveDecrypt {r : Except Err Pack} {lane : Lane} (pc : s.client.receive = .decrypt)
      (decrypt : s.s2c.loopDecrypt s.client.session = some (r, lane)) :
      ClientEffect s (.receive true) ({ s with s2c := lane }.setReceive (.opened r))
  | receiveExit (pc : s.client.receive = .decode) :
      ClientEffect s (.receive false) (s.setReceive .exited)
  | deliver {pack : Pack} {inbox : Chan Pack} (pc : s.client.receive = .deliver pack) :
      ClientEffect s (.receive true) ({ s with client := { s.client with
        inbox := inbox, received := s.client.received ++ [pack] } }.setReceive .decode)
  | take (inbox : Chan Pack) :
      ClientEffect s .take { s with client := { s.client with inbox := inbox } }

/-- Every way in which a step of the server changes the two ends. -/
inductive ServerEffect (c : LinkConf) (s : LinkRun) : WorkerEndAct → LinkRun → Prop
  | workDecode {w : Kcp.Stats × World} {pack : Pack} {lane : Lane}
      (pc : s.server.work = .decode) (decode : s.c2s.decode w = some (pack, lane)) :
      ServerEffect c s (.workDecode w) ({ s with c2s := lane }.setWork (.auth pack))
  | auth {pack : Pack} (out : Pack) (ss : Cryptor) (pc : s.server.work = .auth pack) :
      ServerEffect c s (.auth (some (out, ss))) ({ s with server := { s.server with
        negotiated := some ss } }.setWork
          (.encoding (.header ⟨false, out, s.server.session, out⟩) ss))
  | workFails {a : WorkerEndAct}
      (pc : s.server.work = .decode ∨ (∃ pack, s.server.work = .auth pack) ∨
        s.server.work = .ready) :
      ServerEffect c s a (s.setWork .failed)
  | workEncode {pc : EncodePc} {ss : Cryptor} {lane : Lane} {next : EncodeNext}
      (was : s.server.work = .encoding pc ss) (step : s.s2c.encodeStep pc = (lane, next)) :
      ServerEffect c s (.work true) ({ s with s2c := lane }.setWork (workAfter ss next))
  | setSession {ss : Cryptor} (pc : s.server.work = .setSession ss) :
      ServerEffect c s (.work true)
        ({ s with server := { s.server with session := ss } }.setWork .ready)
  | run (pc : s.server.work = .ready) (loop : s.server.worker.loop = .notStarted) :
      ServerEffect c s .run { s with server := { s.server with
        work := .running, read := .decode, encoder := none,
        worker := { s.server.worker with loop := .select } } }
  | queue {a : WorkerAct} {worker : WorkerRun} (ofQueue : ofQueue a = true)
      (step : s.server.worker.step a = some worker) :
      ServerEffect c s (.worker a) { s with server := { s.server with
        worker := worker, accepted := s.server.accepted ++ sentBy s.server.worker worker a } }
  | encrypt {n : Nat} {item : Item} {out bytes : Pack} (loop : s.server.worker.loop = .writing item)
      (encoder : s.server.encoder = none) (filter : c.writeFilter n item.2 = .ok out)
      (encrypt : s.server.session.encrypt n out = .ok bytes) :
      ServerEffect c s (.encrypt n) { s with server := { s.server with
        encoder := some (.header ⟨true, out, s.server.session, bytes⟩)
        worker := { s.server.worker with
          encoded := s.server.worker.encoded ++ [item]
          loop := .encoding item s.server.worker.connClosed } } }
  | writeFails {n : Nat} {item : Item} (loop : s.server.worker.loop = .writing item)
      (encoder : s.server.encoder = none) :
      ServerEffect c s (.encrypt n) { s with server := { s.server with
        encoder := none
        worker := { s.server.worker with loop := .exited, ctxDone := true } } }
  | encodeNext {pc pc' : EncodePc} {lane : Lane} (encoder : s.server.encoder = some pc)
      (step : s.s2c.encodeStep pc = (lane, .next pc')) :
      ServerEffect c s .encode
        { s with s2c := lane, server := { s.server with encoder := some pc' } }
  | encodeEnds {pc : EncodePc} {lane : Lane} {next : EncodeNext} {loop : LoopPc} {ctxDone : Bool}
      (encoder : s.server.encoder = some pc) (step : s.s2c.encodeStep pc = (lane, next))
      (ended : next = .done ∧ loop = .select ∧
          (∃ item, s.server.worker.loop = .encoding item false) ∨
        next = .failed ∧ loop = .exited) :
      ServerEffect c s .encode { s with
        s2c := lane
        server := { s.server with
          encoder := none
          worker := { s.server.worker with loop := loop, ctxDone := ctxDone } } }
  | readDecode {w : Kcp.Stats × World} {lane : Lane} (pc : s.server.read = .decode)
      (decode : s.c2s.loopDecode w = some lane) :
      ServerEffect c s (.readDecode w) ({ s with c2s := lane }.setRead .decrypt)
  | readDecrypt {r : Except Err Pack} {lane : Lane} (pc : s.server.read = .decrypt)
      (decrypt : s.c2s.loopDecrypt s.server.session = some (r, lane)) :
      ServerEffect c s (.read true) ({ s with c2s := lane }.setRead (.opened r))
  | readOn {ok : Bool} {pc : ReceivePc} (was : s.server.read ≠ .notStarted)
      (goes : pc = .decode ∨ pc = .exited) : ServerEffect c s (.read ok) (s.setRead pc)

variable {c : LinkConf} {s s' : LinkRun}

theorem dialogStep_effect {n : Nat} {ok : Bool} (h : s.dialogStep n s.client.dialog ok = some s') :
    ClientEffect s (.dialog ok n) s' := by
  unfold dialogStep at h
  split at h
  · next pack hpc => cases h; exact .dialog (hpc ▸ .check pack)
  · next pack hpc =>
    split at h
    · cases h; exact .dialog (hpc ▸ .encryptFails pack)
    · next bytes hbytes => cases h; exact .dialog (hpc ▸ .encrypt hbytes)
  · next pc hpc => cases h; exact .dialogEncode hpc rfl
  · next hpc => cases h; exact .startLoop hpc
  · next hpc => cases h; exact .close hpc
  · next pack hpc => cases h; exact .dialog (hpc ▸ .checkFails pack)
  · next hpc => cases h; exact .dialog (hpc ▸ .decodeFails)
  · cases h

theorem appStep_effect {i n : Nat} {pc : AppPc} {ok : Bool} (hpc : s.client.apps[i]? = some pc)
    (h : s.appStep i n pc ok = some s') : ClientEffect s (.appStep i ok n) s' := by
  unfold appStep at h
  split at h
  · next pack =>
    obtain ⟨hauthed, ⟨⟩⟩ := Option.ite_none_right_eq_some.mp h
    exact .app hpc (.authed pack hauthed)
  · next pack => cases h; exact .app hpc (.check pack)
  · next pack => cases h; exact .app hpc (.checkFails pack)
  · next pack =>
    split at h
    · cases h; exact .app hpc (.encryptFails pack)
    · next bytes hbytes => cases h; exact .app hpc (.encrypt hbytes)
  · cases h; exact .appEncode hpc rfl
  · cases h

theorem receiveStep_effect {ok : Bool} (h : s.receiveStep s.client.receive ok = some s') :
    ClientEffect s (.receive ok) s' := by
  unfold receiveStep at h
  split at h
  · next hpc => cases h; exact .receiveExit hpc
  · next hpc =>
    split at h
    · cases h
    · next hdecrypt => cases h; exact .receiveDecrypt hpc hdecrypt
    · next hdecrypt => cases h; exact .receiveDecrypt hpc hdecrypt
  · next hpc =>
    split at h
    · cases h; exact .deliver hpc
    · cases h
  · cases h

theorem clientStep_effect {a : ClientAct} (h : s.clientStep a = some s') :
    ClientEffect s a s' := by
  cases a with
  | handshakePack pack =>
    simp only [clientStep] at h
    split at h
    · next pack hpc => cases h; exact .dialog (hpc ▸ .pack pack)
    · next hpc => cases h; exact .dialog (hpc ▸ .packFails)
    · cases h
  | dialog ok n => exact dialogStep_effect h
  | dialogDecode w =>
    simp only [clientStep] at h
    split at h
    · next hpc hdecode => cases h; exact .dialogDecode hpc hdecode
    · cases h
  | authFunc ss ok =>
    simp only [clientStep] at h
    split at h
    · next hpc => cases h; exact .authFunc ss hpc
    · next hpc => cases h; exact .authFails ss hpc
    · cases h
  | app pack => cases h; exact .spawn pack
  | appStep i ok n =>
    simp only [clientStep] at h
    split at h
    · next hpc => exact appStep_effect hpc h
    · cases h
  | receiveDecode w =>
    simp only [clientStep] at h
    split at h
    · next hpc hdecode => cases h; exact .receiveDecode hpc hdecode
    · cases h
  | receive ok => exact receiveStep_effect h
  | take =>
    simp only [clientStep] at h
    split at h
    · cases h; exact .take _
    · cases h

theorem workStep_effect {ok : Bool} (h : s.workStep s.server.work ok = some s') :
    ServerEffect c s (.work ok) s' := by
  unfold workStep at h
  split at h
  · next hpc => cases h; exact .workFails (Or.inl hpc)
  · next hpc => cases h; exact .workEncode hpc rfl
  · next hpc => cases h; exact .setSession hpc
  · next hpc => cases h; exact .workFails (Or.inr (Or.inr hpc))
  · cases h

theorem encryptStep_effect {n : Nat} (h : s.encryptStep c n = some s') :
    ServerEffect c s (.encrypt n) s' := by
  unfold encryptStep at h
  split at h
  · next item hloop hencoder =>
    split at h
    · simp only [workerStep, WorkerRun.step, WorkerRun.write, hloop] at h
      cases h; exact .writeFails hloop hencoder
    · next out hfilter =>
      split at h
      · simp only [workerStep, WorkerRun.step, WorkerRun.write, hloop] at h
        cases h; exact .writeFails hloop hencoder
      · next bytes hbytes =>
        simp only [workerStep, WorkerRun.step, WorkerRun.encode, hloop] at h
        cases h; exact .encrypt hloop hencoder hfilter hbytes
  · cases h

theorem encodeStep_effect (h : s.encodeStep = some s') : ServerEffect c s .encode s' := by
  unfold encodeStep at h
  split at h
  · cases h
  · next pc hencoder =>
    split at h
    · next hstep => cases h; exact .encodeNext hencoder hstep
    · next hstep =>
      simp only [workerStep, WorkerRun.step, WorkerRun.write] at h
      split at h
      · cases h
      · next hwrite =>
        split at hwrite
        · next item hloop =>
          cases hwrite; cases h
          exact .encodeEnds hencoder hstep (Or.inl ⟨rfl, rfl, item, hloop⟩)
        · cases hwrite
    · next hstep =>
      simp only [workerStep, WorkerRun.step, WorkerRun.write] at h
      split at h
      · cases h
      · next hwrite =>
        split at hwrite
        · cases hwrite; cases h; exact .encodeEnds hencoder hstep (Or.inr ⟨rfl, rfl⟩)
        · cases hwrite; cases h; exact .encodeEnds hencoder hstep (Or.inr ⟨rfl, rfl⟩)
        · cases hwrite

theorem readStep_effect {ok : Bool} (h : s.readStep s.server.read ok = some s') :
    ServerEffect c s (.read ok) s' := by
  unfold readStep at h
  split at h
  · next hpc => cases h; exact .readOn (by rw [hpc]; nofun) (Or.inr rfl)
  · next hpc =>
    split at h
    · cases h
    · next hdecrypt => cases h; exact .readDecrypt hpc hdecrypt
    · next hdecrypt => cases h; exact .readDecrypt hpc hdecrypt
  · next hpc =>
    cases h
    refine .readOn (by rw [hpc]; nofun) ?_
    split
    · exact Or.inl rfl
    · exact Or.inr rfl
  · cases h

theorem serverStep_effect {a : WorkerEndAct} (h : s.serverStep c a = some s') :
    ServerEffect c s a s' := by
  cases a with
  | workDecode w =>
    simp only [serverStep] at h
    split at h
    · next hpc hdecode => cases h; exact .workDecode hpc hdecode
    · cases h
  | auth r =>
    simp only [serverStep] at h
    split at h
    · next out ss hpc => cases h; exact .auth out ss hpc
    · next pack hpc => cases h; exact .workFails (Or.inr (Or.inl ⟨pack, hpc⟩))
    · cases h
  | work ok => exact workStep_effect h
  | run =>
    simp only [serverStep] at h
    split at h
    · next hpc =>
      simp only [workerStep, WorkerRun.step] at h
      split at h
      · cases h
      · next hrun =>
        obtain ⟨hloop, ⟨⟩⟩ := Option.ite_none_right_eq_some.mp hrun
        cases h; exact .run hpc hloop
    · cases h
  | worker a =>
    obtain ⟨hqueue, h⟩ := Option.ite_none_right_eq_some.mp h
    split at h
    · cases h
    · next hstep => cases h; exact .queue hqueue hstep
  | encrypt n => exact encryptStep_effect h
  | encode => exact encodeStep_effect h
  | readDecode w =>
    simp only [serverStep] at h
    split at h
    · next hpc hdecode => cases h; exact .readDecode hpc hdecode
    · cases h
  | read ok => exact readStep_effect h

end LinkRun

end FabricaNet.Internal
