import FabricaNet.Go.Messages
import FabricaNet.Ringpool.MultiPool

/-!
# The frame codecs

`tcp/frame`, `kcp/frame` and `websocket/frame`. A frame is the length of the pack as a big-endian
`int32`, followed by the pack. TCP and KCP write frames one after the other to a stream, WebSocket
writes one frame to a message.

## Decoding

`Decode` allocates its buffer from the pool of the package and returns it with the function that
frees it. Its results are named: `return nil, nil, err` sets `free` to nil before the deferred
function runs, which then calls it. So an error after the allocation ends in a panic, and
`Decoded` has three outcomes.

The pack that `Decode` returns is the contents of the buffer.
-/

namespace FabricaNet.Frame

open Go Xnet Ringpool

/-- The pool variable of a frame package, with the heap. -/
structure World where
  pool : MultiSizeRingPool
  heap : Heap

/-- How `Decode` ends. -/
inductive Decoded where
  /-- the pack, in the buffer that `free` gives back -/
  | ok (buf : Slice)
  | err (e : Err)
  /-- the deferred call of a nil `free` -/
  | panic
deriving DecidableEq, Repr

/-- `io.ReadFull(r, buf)`: the error, the number of bytes, the bytes left on the stream. -/
def readInto (w : World) (buf : Slice) (s : Bytes) : Option Err × Nat × World × Bytes :=
  let (e, bytes, rest) := readFull buf.len s
  (e, bytes.length, { w with heap := w.heap.write buf bytes }, rest)

/-- The check of a length header. -/
def badPackLen (packLen : Int32) : Bool := packLen ≤ 0 || packLen > maxPackSize

/-- `int32(len(pack))`, big-endian. -/
def packLenBytes (pack : Pack) : Bytes := putInt32 (Int32.ofNat pack.length)

/--
`Decode` of TCP and WebSocket from the length header on, where the two are the same: the result,
the pool and the heap, the bytes left.
-/
def decodePack (errInvalidPackLen : Err) (w : World) (s : Bytes) : Decoded × World × Bytes :=
  match readFull 4 s with
  | (some e, _, rest) => (.err (.wrap e "read pack len failed"), w, rest)
  | (none, header, rest) =>
    let packLen := int32 header
    if badPackLen packLen then (.err errInvalidPackLen, w, rest)
    else
      let (buf, pool, heap) := w.pool.alloc w.heap packLen.toInt
      match readInto { pool := pool, heap := heap } buf rest with
      -- the return has set the named result `free` to nil before the deferred function calls it
      | (some _, _, w', rest') => (.panic, w', rest')
      | (none, n, w', rest') =>
        if (n : Int) < packLen.toInt then (.panic, w', rest') else (.ok buf, w', rest')

/-! ## TCP -/

namespace Tcp

def errShortWrite : Err := .sentinel "short write"

def errInvalidPackLen : Err := .sentinel "invalid pack len"

/-- `Codec.Encode`. -/
def encode (w : Writer) (pack : Pack) : Option Err × Writer :=
  match w.write (packLenBytes pack) with
  | (_, some e, w) => (some (.wrap e "write pack len failed"), w)
  | (_, none, w) =>
    match w.write pack with
    | (_, some e, w) => (some (.wrap e "write pack failed"), w)
    | (n, none, w) =>
      if n ≠ pack.length then (some errShortWrite, w)
      else
        match w.flush with
        | (some e, w) => (some (.wrap e "flush writer failed"), w)
        | (none, w) => (none, w)

/-- `Codec.Decode`. -/
def decode (w : World) (s : Bytes) : Decoded × World × Bytes := decodePack errInvalidPackLen w s

end Tcp

/-! ## KCP -/

namespace Kcp

/-- The counters of `kcp/frame/stats.go`. -/
structure Stats where
  totalEncodes : UInt64 := 0
  totalDecodes : UInt64 := 0
  totalBytesIn : UInt64 := 0
  totalBytesOut : UInt64 := 0
  encodeErrors : UInt64 := 0
  decodeErrors : UInt64 := 0
  poolHits : UInt64 := 0
  poolMisses : UInt64 := 0

/-- `encodeErrors.Add(1)`. -/
def Stats.encodeError (st : Stats) : Stats := { st with encodeErrors := st.encodeErrors + 1 }

/-- `decodeErrors.Add(1)`. -/
def Stats.decodeError (st : Stats) : Stats := { st with decodeErrors := st.decodeErrors + 1 }

/-- `kcpCodec.Encode`. -/
def encode (st : Stats) (w : Writer) (pack : Pack) : Option Err × Stats × Writer :=
  let st := { st with
    totalEncodes := st.totalEncodes + 1
    totalBytesOut := st.totalBytesOut + UInt64.ofNat pack.length }
  match w.write (packLenBytes pack) with
  | (_, some e, w) => (some (.wrap e "write length failed"), st.encodeError, w)
  | (_, none, w) =>
    match w.write pack with
    | (_, some e, w) => (some (.wrap e "write data failed"), st.encodeError, w)
    | (_, none, w) =>
      match w.flush with
      | (some e, w) => (some (.wrap e "flush writer failed"), st.encodeError, w)
      | (none, w) => (none, st, w)

/-- `kcpCodec.Decode`. The deferred function counts the error before it calls `free`. -/
def decode (st : Stats) (w : World) (s : Bytes) : Decoded × Stats × World × Bytes :=
  let st := { st with totalDecodes := st.totalDecodes + 1 }
  match readFull 4 s with
  | (some e, _, rest) => (.err (.wrap e "read length failed"), st.decodeError, w, rest)
  | (none, header, rest) =>
    let length := int32 header
    if badPackLen length then
      (.err (.new ("invalid pack length: " ++ toString length.toInt)), st.decodeError, w, rest)
    else
      let st := { st with totalBytesIn := st.totalBytesIn + length.toInt64.toUInt64 }
      let (buf, pool, heap) := w.pool.alloc w.heap length.toInt
      let st :=
        if (buf.cap : Int) = length.toInt then { st with poolHits := st.poolHits + 1 }
        else { st with poolMisses := st.poolMisses + 1 }
      match readInto { pool := pool, heap := heap } buf rest with
      | (some _, _, w', rest') => (.panic, st.decodeError, w', rest')
      | (none, _, w', rest') => (.ok buf, st, w', rest')

end Kcp

/-! ## WebSocket -/

namespace WebSocket

def errShortWrite : Err := .sentinel "short write"

def errInvalidPackLen : Err := .sentinel "invalid pack len"

/-- `wsconn.ErrInvalidFrameType`. -/
def errInvalidFrameType : Err := .sentinel "invalid frame type"

/-- `wsconn.MessageType`. -/
def messageType : Int := binaryMessage

section
variable {κ μ ρ : Type} (g : MessageSender κ μ) (r : MessageReceiver ρ)

/-- `Codec.Encode` up to its deferred function. -/
def encodeMessage (w : μ) (pack : Pack) : Option Err × μ :=
  match g.write w (packLenBytes pack) with
  | (_, some e, w) => (some (.wrap e "write pack len failed"), w)
  | (_, none, w) =>
    match g.write w pack with
    | (_, some e, w) => (some (.wrap e "write pack failed"), w)
    | (n, none, w) => if n ≠ pack.length then (some errShortWrite, w) else (none, w)

/-- `Codec.Encode`. The deferred function closes the message and joins its error to the result. -/
def encode (c : κ) (pack : Pack) : Option Err × κ :=
  match g.nextWriter c messageType with
  | .error (e, c) => (some (.wrap e "create next writer failed"), c)
  | .ok w =>
    let (err, w) := encodeMessage g w pack
    match g.close w with
    | (some closeErr, c) => (some (Err.joinTo err closeErr), c)
    | (none, c) => (err, c)

/-- `Codec.Decode`. What is left of a message is discarded by the next `NextReader`. -/
def decode (w : World) (c : ρ) : Decoded × World × ρ :=
  match r.nextReader c with
  | (.error e, c) =>
    if r.isUnexpectedCloseError e then (.err (.wrap e "unexpected close error"), w, c)
    else (.err (.wrap e "connection closed"), w, c)
  | (.ok (mt, message), c) =>
    if mt ≠ messageType then (.err errInvalidFrameType, w, c)
    else
      let (d, w', _) := decodePack errInvalidPackLen w message
      (d, w', c)

end

end WebSocket

end FabricaNet.Frame
