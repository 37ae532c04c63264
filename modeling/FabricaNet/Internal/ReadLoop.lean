import FabricaNet.Frame.Codec

/-!
# The loops that read a connection

`Worker.read` and `Worker.readLoop` of `internal/worker.go`, and `Dialog.receiveLoop` of
`internal/dialog.go`. Both loops decode a pack into a buffer of the pool, decrypt it and pass it on.
They differ in when the buffer is freed: `read` is a function of its own, so its deferred `free`
runs at the end of a round; `receiveLoop` defers `free` in the loop, so that it runs when the loop
returns.

## Rounds

A loop runs over a list of rounds. A round is what the loop meets from outside: whether it is
stopped, what the pool looks like when `Decode` is called, and what `Decrypt`, the filter and the
handler make of the pack. When the list is used up the loop is still running. Whether a round of
`select` with a `default` takes a case is not left open: it does when the case is ready.

The codec is a parameter: `decode` gets the pool, with the counters of KCP, and the stream.
-/

namespace FabricaNet.Internal

open Go Xnet FabricaNet.Frame

/-- What a loop does that others can see. -/
inductive ReadEvent where
  /-- calls `codec.Decode` -/
  | decode
  /-- `Decode` has returned a pack in this buffer -/
  | obtain (buf : Slice)
  /-- passes the pack to `session.Decrypt` -/
  | decrypt (pack : Pack)
  /-- passes the pack to the filter and the handler, or sends it on `receivedPackChan` -/
  | pass (pack : Pack)
  /-- calls the `free` that `Decode` has returned with this buffer -/
  | free (buf : Slice)
deriving DecidableEq, Repr

/-- How a function of a loop returns. -/
inductive ReadEnd where
  | ok
  | err (e : Err)
  | panic
deriving DecidableEq, Repr

/-- `ctx.Err()` of a context that has ended. -/
def errContext : Err := .sentinel "context canceled"

/-- `xsync.ErrStopByTrigger`. -/
def errStopByTrigger : Err := .sentinel "xsync.ErrStopByTrigger"

variable {ω σ : Type}

/-! ## The worker -/

/-- A round of `readLoop`. -/
structure Round (ω : Type) where
  ctxDone : Bool := false
  /-- `OnStopping` of the worker -/
  stopping : Bool := false
  /-- the error of `SetDeadline` -/
  deadline : Option Err := none
  /-- the pool when `Decode` is called -/
  codec : ω
  decrypt : Pack → Except Err Pack
  /-- the filter and the handler -/
  next : Pack → ReadEnd

/-- `Worker.read`: how it returns, what it does, and what it leaves of the stream. -/
def read (decode : ω → σ → Decoded × World × σ) (r : Round ω) (s : σ) :
    ReadEnd × List ReadEvent × σ :=
  if r.stopping then (.err errIsStopped, [], s)
  else
    match r.deadline with
    | some e => (.err (.wrap e "set conn deadline after handshake failed"), [], s)
    | none =>
      match decode r.codec s with
      | (.err e, _, rest) => (.err e, [.decode], rest)
      | (.panic, _, rest) => (.panic, [.decode], rest)
      | (.ok buf, w, rest) =>
        let pack := w.heap.read buf
        match r.decrypt pack with
        | .error e => (.err e, [.decode, .obtain buf, .decrypt pack, .free buf], rest)
        -- `free` is deferred, so it also runs when the handler panics
        | .ok out =>
          (r.next out, [.decode, .obtain buf, .decrypt pack, .pass out, .free buf], rest)

/-- `Worker.readLoop`. The first result is `none` while the loop runs. -/
def readLoop (decode : ω → σ → Decoded × World × σ) :
    List (Round ω) → σ → Option ReadEnd × List ReadEvent
  | [], _ => (none, [])
  | r :: rs, s =>
    if r.ctxDone then (some (.err errContext), [])
    else
      match read decode r s with
      | (.ok, events, rest) =>
        let (e, events') := readLoop decode rs rest
        (e, events ++ events')
      | (e, events, _) => (some e, events)

/-! ## The dialog -/

/-- How the send on `receivedPackChan` goes. -/
inductive DialogSend where
  | sent
  /-- the channel is full and nobody receives -/
  | blocked
  /-- the channel is closed -/
  | panic
deriving DecidableEq, Repr

/-- A round of `receiveLoop`. -/
structure DialogRound (ω : Type) where
  stopTriggered : Bool := false
  ctxDone : Bool := false
  /-- the pool when `Decode` is called -/
  codec : ω
  decrypt : Pack → Except Err Pack
  send : DialogSend := .sent

/-- The deferred calls of `free` run when `receiveLoop` returns, the last one first. -/
def dialogReturn (e : ReadEnd) (deferred : List Slice) : Option ReadEnd × List ReadEvent :=
  (some e, deferred.map .free)

/-- `Dialog.receiveLoop`; `deferred` are the buffers whose `free` has been deferred so far. -/
def receiveLoop (decode : ω → σ → Decoded × World × σ) :
    List (DialogRound ω) → List Slice → σ → Option ReadEnd × List ReadEvent
  | [], _, _ => (none, [])
  | r :: rs, deferred, s =>
    if r.stopTriggered then dialogReturn (.err errStopByTrigger) deferred
    else if r.ctxDone then dialogReturn (.err errContext) deferred
    else
      match decode r.codec s with
      | (.err e, _, _) =>
        let (e, events) := dialogReturn (.err e) deferred
        (e, .decode :: events)
      | (.panic, _, _) =>
        let (e, events) := dialogReturn .panic deferred
        (e, .decode :: events)
      | (.ok buf, w, rest) =>
        let pack := w.heap.read buf
        match r.decrypt pack with
        | .error e =>
          let (e, events) := dialogReturn (.err e) (buf :: deferred)
          (e, [.decode, .obtain buf, .decrypt pack] ++ events)
        | .ok out =>
          match r.send with
          | .blocked => (none, [.decode, .obtain buf, .decrypt pack])
          | .panic =>
            let (e, events) := dialogReturn .panic (buf :: deferred)
            (e, [.decode, .obtain buf, .decrypt pack] ++ events)
          | .sent =>
            let (e, events) := receiveLoop decode rs (buf :: deferred) rest
            (e, [.decode, .obtain buf, .decrypt pack, .pass out] ++ events)

/-! ## What can be read off the events -/

/-- The buffers that `Decode` has returned packs in, in order. -/
def obtained (events : List ReadEvent) : List Slice :=
  events.filterMap fun
    | .obtain buf => some buf
    | _ => none

/-- The buffers that have been freed, in order. -/
def freed (events : List ReadEvent) : List Slice :=
  events.filterMap fun
    | .free buf => some buf
    | _ => none

/-- The packs that have been passed to `Decrypt`, in order. -/
def decrypted (events : List ReadEvent) : List Pack :=
  events.filterMap fun
    | .decrypt pack => some pack
    | _ => none

@[simp] theorem obtained_append (es es' : List ReadEvent) :
    obtained (es ++ es') = obtained es ++ obtained es' := List.filterMap_append

@[simp] theorem freed_append (es es' : List ReadEvent) :
    freed (es ++ es') = freed es ++ freed es' := List.filterMap_append

@[simp] theorem decrypted_append (es es' : List ReadEvent) :
    decrypted (es ++ es') = decrypted es ++ decrypted es' := List.filterMap_append

end FabricaNet.Internal
