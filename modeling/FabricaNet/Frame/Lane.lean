import FabricaNet.Frame.Roundtrip

/-!
# One direction of a connection

A `Lane` is one direction of a connection: what the sender's codec writes to, what has gone out, and
how far the receiver has read it. Over TCP and KCP the codec writes to a `bufio.Writer`, and over
WebSocket to the writer for a message (`Medium`), of a connection on which nothing fails. The
transport is lossless and keeps the order; how long it takes shows in when the receiver takes its
step.

`Encode` is three calls on the medium, and nothing keeps two calls of `Encode` apart. So it is three
steps here (`encodeStep`); made in one go they are the `Encode` of the codecs
(`encodeAllSteps_stream`, `encodeAllSteps_messages`). Over WebSocket the first one asks for the
writer and the last one closes it.

Each of the three calls is one step. A `bufio.Writer` holds on to its bytes until `conn.Write` has
returned, so that this is right for a call that no other call on the same writer overlaps. Over
WebSocket the medium has one writer, that of the call of `Encode` that is under way. When two calls
overlap, the second write of the one goes to the writer of the other here; `gorilla/websocket`
supports one writer at a time and refuses a write to one that it has closed. What is proved to go
right is proved under a condition that excludes all this: one goroutine encodes on the server, and a
client writes a header only when no other goroutine is in `Encode` (`LinkRun.ClientKeepsApart`).

* `Ok` — as long as no header is written while another call of `Encode` is behind its own, the lane
  carries the frames of the packs in the order of their headers, and the receiver has read the first
  ones of them
-/

namespace FabricaNet.Frame

open Go Xnet Lib

/-! ## Frames that begin alike -/

/-- The length of the pack fits into the header. -/
def Fits (pack : Pack) : Prop := pack.length ≤ 0x7fffffff

instance (pack : Pack) : Decidable (Fits pack) := Nat.decLe ..

theorem Legal.fits {pack : Pack} (h : Legal pack) : Fits pack := by
  have hmax : maxPackSize.toInt.toNat = 16384 := by decide
  have hle := h.2
  unfold Fits
  omega

/-- A frame is not the beginning of another frame. -/
theorem frame_append_inj {a b : Pack} {x y : Bytes} (ha : Fits a) (hb : Fits b)
    (h : frame a ++ x = frame b ++ y) : a = b ∧ x = y := by
  rw [frame, frame, List.append_assoc, List.append_assoc] at h
  obtain ⟨hheader, hbody⟩ := List.append_inj h rfl
  have hlen : a.length = b.length := by
    have hint := congrArg int32 hheader
    rw [packLenBytes, packLenBytes, int32_putInt32, int32_putInt32] at hint
    have htoInt := congrArg Int32.toInt hint
    unfold Fits at ha hb
    rw [Int32.toInt_ofNat_of_lt (by omega), Int32.toInt_ofNat_of_lt (by omega)] at htoInt
    omega
  exact List.append_inj hbody hlen

/-- What is read off the beginning of a stream of frames is the first one of them. -/
theorem parseFrame_of_isPrefix {packs : List Pack} {s rest : Bytes} {pack : Pack}
    (hfits : ∀ p ∈ packs, Fits p) (hpre : s <+: frameCode.encodeAll packs)
    (h : parseFrame s = some (pack, rest)) :
    ∃ packs', packs = pack :: packs' ∧ s = frame pack ++ rest ∧
      rest <+: frameCode.encodeAll packs' := by
  obtain ⟨hlegal, hs⟩ := frameCode_exact s pack rest h
  change s = frame pack ++ rest at hs
  subst hs
  obtain ⟨t, ht⟩ := hpre
  cases packs with
  | nil =>
    have hnil : frame pack = [] := by
      have hparts := List.append_eq_nil_iff.mp (List.append_eq_nil_iff.mp ht).1
      exact hparts.1
    exact absurd hnil (StreamCode.encode_ne_nil (c := frameCode) hlegal)
  | cons p packs =>
    rw [StreamCode.encodeAll_cons, List.append_assoc] at ht
    obtain ⟨rfl, htail⟩ := frame_append_inj hlegal.fits (hfits p List.mem_cons_self) ht
    exact ⟨packs, rfl, rfl, t, htail⟩

/-! ## The lane -/

/-- The transports that are byte streams. -/
inductive Stream where
  | tcp
  | kcp
deriving DecidableEq, Repr

/-- The pack that `Decode` returns and the bytes that it leaves, whatever the pool looks like. -/
def Stream.receive : Stream → Kcp.Stats × World → Bytes → Option (Pack × Bytes)
  | .tcp, w => Tcp.receive w.2
  | .kcp, w => Kcp.receive w

theorem Stream.receive_eq (t : Stream) (w : Kcp.Stats × World) (s : Bytes) :
    t.receive w s = parseFrame s := by
  cases t with
  | tcp => exact Tcp.receive_eq w.2 s
  | kcp => exact Kcp.receive_eq w s

/-- A pack that is encoded. -/
structure Sent where
  /-- an application pack, not one of the handshake -/
  app : Bool
  /-- the pack as it was -/
  pack : Pack
  /-- the session that it was encrypted under -/
  session : Cryptor
  /-- what `Encode` gets -/
  bytes : Pack

/-- What `Decrypt` has made of a frame. -/
structure Opened where
  bytes : Pack
  session : Cryptor
  result : Except Err Pack

/-- Where a call of `Encode` is. -/
inductive EncodePc where
  /-- the write of the length is next -/
  | header (e : Sent)
  /-- the write of the pack is next -/
  | body (e : Sent)
  | flush

/-- The pack whose header the call of `Encode` writes next. -/
def EncodePc.header? : EncodePc → Option Sent
  | .header e => some e
  | _ => none

/-- The call of `Encode`, if it has written its header. -/
def EncodePc.begun? : EncodePc → Option EncodePc
  | .header _ => none
  | pc => some pc

/-- What a step of `Encode` comes to. -/
inductive EncodeNext where
  | next (pc : EncodePc)
  /-- returned nil -/
  | done
  /-- returned an error -/
  | failed

/-- `Encode` has returned an error. -/
def EncodeNext.isErr : EncodeNext → Bool
  | .failed => true
  | _ => false

/-- The transports. -/
inductive Protocol where
  | tcp
  | kcp
  | webSocket
deriving DecidableEq, Repr

/-- What a codec writes to. -/
inductive Medium where
  /-- TCP or KCP -/
  | stream (t : Stream) (out : Writer)
  /-- WebSocket, with the writer for the message that is not closed yet -/
  | messages (conn : PlainConn) (writer : Option PlainWriter)

namespace Medium

/-- `errWriteClosed` of `gorilla/websocket`. -/
def errWriteClosed : Err := .sentinel "websocket: write closed"

/-- A new connection. -/
def new : Protocol → Medium
  | .tcp => .stream .tcp { conn := { sent := [], fault := none }, buf := [], err := none }
  | .kcp => .stream .kcp { conn := { sent := [], fault := none }, buf := [], err := none }
  | .webSocket => .messages plainSender.fresh none

/-- The first write of `Encode`. `NextWriter` closes a writer that is still open. -/
def writeFirst (p : Bytes) : Medium → Nat × Option Err × Medium
  | .stream t out =>
    let (n, e, out) := out.write p
    (n, e, .stream t out)
  | .messages conn writer =>
    let conn := match writer with
      | none => conn
      | some w => (plainSender.close w).2
    match plainSender.nextWriter conn WebSocket.messageType with
    | .error (e, conn) => (0, some e, .messages conn none)
    | .ok w =>
      let (n, e, w) := plainSender.write w p
      (n, e, .messages conn (some w))

/-- The second write of `Encode`. -/
def write (p : Bytes) : Medium → Nat × Option Err × Medium
  | .stream t out =>
    let (n, e, out) := out.write p
    (n, e, .stream t out)
  | .messages conn none => (0, some errWriteClosed, .messages conn none)
  | .messages conn (some w) =>
    let (n, e, w) := plainSender.write w p
    (n, e, .messages conn (some w))

/-- `Flush`, or `Close` of the writer for the message. -/
def finish : Medium → Option Err × Medium
  | .stream t out =>
    let (e, out) := out.flush
    (e, .stream t out)
  | .messages conn none => (some errWriteClosed, .messages conn none)
  | .messages _ (some w) =>
    let (e, conn) := plainSender.close w
    (e, .messages conn none)

/-- The bytes that have gone out. -/
def sent : Medium → Bytes
  | .stream _ out => out.conn.sent
  | .messages conn _ => conn.wire.sent.flatMap Prod.snd

/--
`Decode` behind the bytes, or the messages, that have been read: the pack, and how many have been
read then.
-/
def receive (w : Kcp.Stats × World) (read : Nat) : Medium → Option (Pack × Nat)
  | .stream t out =>
    (t.receive w (out.conn.sent.drop read)).map fun (pack, rest) =>
      (pack, out.conn.sent.length - rest.length)
  | .messages conn _ =>
    (WebSocket.receive plainReceiver w.2 (conn.wire.sent.drop read)).map fun (pack, rest) =>
      (pack, conn.wire.sent.length - rest.length)

end Medium

structure Lane where
  out : Medium
  /-- the packs that are encoded, in the order of their headers -/
  log : List Sent
  /-- how many of the bytes, or of the messages, that have gone out the receiver has read -/
  read : Nat
  /-- the frames that the receiver has decoded -/
  got : List Pack
  /-- the frames that its loop has decrypted -/
  opened : List Opened
  /-- the frame that its loop has decoded and not decrypted yet -/
  hand : Option Pack

namespace Lane

/-- A new connection. -/
def init (t : Protocol) : Lane where
  out := .new t
  log := []
  read := 0
  got := []
  opened := []
  hand := none

/-- The next step of `Encode`: a call on the medium, which no other call overlaps. -/
def encodeStep (l : Lane) : EncodePc → Lane × EncodeNext
  | .header e =>
    match l.out.writeFirst (packLenBytes e.bytes) with
    | (_, some _, m) => ({ l with out := m }, .failed)
    | (_, none, m) => ({ l with out := m, log := l.log ++ [e] }, .next (.body e))
  | .body e =>
    match l.out.write e.bytes with
    | (_, some _, m) => ({ l with out := m }, .failed)
    | (n, none, m) =>
      if n ≠ e.bytes.length then ({ l with out := m }, .failed)
      else ({ l with out := m }, .next .flush)
  | .flush =>
    match l.out.finish with
    | (some _, m) => ({ l with out := m }, .failed)
    | (none, m) => ({ l with out := m }, .done)

/-- The receiver calls `Decode`, and all the bytes of a frame are there. -/
def decode (w : Kcp.Stats × World) (l : Lane) : Option (Pack × Lane) :=
  (l.out.receive w l.read).map fun (pack, read) =>
    (pack, { l with read := read, got := l.got ++ [pack] })

/-- The loop of the receiver calls `Decode`. -/
def loopDecode (w : Kcp.Stats × World) (l : Lane) : Option Lane :=
  match l.decode w, l.hand with
  | some (pack, l'), none => some { l' with hand := some pack }
  | _, _ => none

/-- The loop of the receiver decrypts the frame that it has decoded. -/
def loopDecrypt (l : Lane) (ss : Cryptor) : Option (Except Err Pack × Lane) :=
  match l.hand with
  | none => none
  | some bytes =>
    let r := ss.decrypt bytes
    some (r, { l with hand := none, opened := l.opened ++ [⟨bytes, ss, r⟩] })

/-! ## `Encode` in one go -/

/-- The three steps of `Encode`, with nothing between them. -/
def encodeAllSteps (l : Lane) (e : Sent) : Lane × EncodeNext :=
  match l.encodeStep (.header e) with
  | (l, .next pc) =>
    match l.encodeStep pc with
    | (l, .next pc) => l.encodeStep pc
    | r => r
  | r => r

/-- **Made in one go the steps are the `Encode` of TCP and of KCP.** -/
theorem encodeAllSteps_stream {l : Lane} {t : Stream} {out : Writer} (hl : l.out = .stream t out)
    (st : Kcp.Stats) (e : Sent) :
    ((l.encodeAllSteps e).1.out = .stream t (Tcp.encode out e.bytes).2 ∧
        (l.encodeAllSteps e).2.isErr = (Tcp.encode out e.bytes).1.isSome) ∧
      (l.encodeAllSteps e).1.out = .stream t (Kcp.encode st out e.bytes).2.2 ∧
        (l.encodeAllSteps e).2.isErr = (Kcp.encode st out e.bytes).1.isSome := by
  rcases hheader : out.write (packLenBytes e.bytes) with ⟨n, _ | err, out₁⟩
  · rcases hbody : out₁.write e.bytes with ⟨m, _ | err, out₂⟩
    · -- KCP does not look at the number of bytes, which is the length when there is no error
      have hlen := Writer.length_of_write hbody
      rcases hflush : out₂.flush with ⟨_ | err, out₃⟩ <;>
        simp [encodeAllSteps, encodeStep, Medium.writeFirst, Medium.write, Medium.finish, hl,
          Tcp.encode, Kcp.encode, hheader, hbody, hlen, hflush, EncodeNext.isErr]
    · simp [encodeAllSteps, encodeStep, Medium.writeFirst, Medium.write, hl, Tcp.encode, Kcp.encode,
        hheader, hbody, EncodeNext.isErr]
  · simp [encodeAllSteps, encodeStep, Medium.writeFirst, hl, Tcp.encode, Kcp.encode, hheader,
      EncodeNext.isErr]

/-- **On a healthy connection they are the `Encode` of WebSocket.** -/
theorem encodeAllSteps_messages {l : Lane} {conn : PlainConn} (hl : l.out = .messages conn none)
    (hconn : plainSender.Healthy conn) (e : Sent) :
    (l.encodeAllSteps e).1.out = .messages (WebSocket.encode plainSender conn e.bytes).2 none ∧
      (l.encodeAllSteps e).2.isErr = (WebSocket.encode plainSender conn e.bytes).1.isSome := by
  obtain ⟨hbroken, hroom⟩ := hconn
  simp [encodeAllSteps, encodeStep, Medium.writeFirst, Medium.write, Medium.finish, hl, plainSender,
    hbroken, hroom, WebSocket.encode, WebSocket.encodeMessage, EncodeNext.isErr]

/-! ## The two ends of a lane -/

/-- The sender leaves what the receiver has done as it is. -/
theorem encodeStep_frame {l l' : Lane} {pc : EncodePc} {next : EncodeNext}
    (h : l.encodeStep pc = (l', next)) : l'.got = l.got ∧ l'.opened = l.opened := by
  cases pc with
  | header e =>
    simp only [encodeStep] at h
    split at h <;> cases h <;> exact ⟨rfl, rfl⟩
  | body e =>
    simp only [encodeStep] at h
    split at h
    · cases h; exact ⟨rfl, rfl⟩
    · split at h <;> cases h <;> exact ⟨rfl, rfl⟩
  | flush =>
    simp only [encodeStep] at h
    split at h <;> cases h <;> exact ⟨rfl, rfl⟩

/-- The receiver leaves the log as it is. -/
theorem log_of_decode {l l' : Lane} {w : Kcp.Stats × World} {pack : Pack}
    (h : l.decode w = some (pack, l')) : l'.log = l.log := by
  obtain ⟨⟨_, read⟩, -, ⟨⟩⟩ := Option.map_eq_some_iff.mp h
  rfl

theorem log_of_loopDecode {l l' : Lane} {w : Kcp.Stats × World}
    (h : l.loopDecode w = some l') : l'.log = l.log := by
  unfold loopDecode at h
  split at h
  · next hdecode _ =>
    have hlog := log_of_decode hdecode
    cases h; exact hlog
  · cases h

theorem log_of_loopDecrypt {l l' : Lane} {ss : Cryptor} {r : Except Err Pack}
    (h : l.loopDecrypt ss = some (r, l')) : l'.log = l.log := by
  unfold loopDecrypt at h
  split at h <;> cases h
  rfl

/-! ## The invariant -/

end Lane

/-- What the calls of `Encode` still have to write of the last pack. -/
def EncodePc.missing : EncodePc → Bytes
  | .body e => e.bytes
  | _ => []

namespace Medium

/-- A connection on which the packs have been sent. -/
def carrying (packs : List Pack) : PlainConn := ⟨⟨WebSocket.framed packs, none, false⟩, none⟩

/--
The medium carries the frames of the packs. `mid` is the call of `Encode` that has written its
header and has not returned.
-/
inductive Carries : Medium → List Pack → Option EncodePc → Prop
  | stream {t : Stream} {out : Writer} {packs : List Pack} {mid : Option EncodePc}
      (healthy : out.Healthy)
      (written : out.written ++ (mid.map EncodePc.missing).getD [] = frameCode.encodeAll packs) :
      Carries (.stream t out) packs mid
  | closed {packs : List Pack} : Carries (.messages (carrying packs) none) packs none
  | header {packs : List Pack} {e : Sent} :
      Carries (.messages (carrying packs)
        (some ⟨carrying packs, WebSocket.messageType, packLenBytes e.bytes, false⟩))
        (packs ++ [e.bytes]) (some (.body e))
  | whole {packs : List Pack} {pack : Pack} :
      Carries (.messages (carrying packs)
        (some ⟨carrying packs, WebSocket.messageType, frame pack, false⟩))
        (packs ++ [pack]) (some .flush)

/-- What has been read are the frames of the packs. -/
def Consumed (read : Nat) (got : List Pack) : Medium → Prop
  | .stream _ out =>
    read ≤ out.conn.sent.length ∧ out.conn.sent.take read = frameCode.encodeAll got
  | .messages conn _ =>
    read ≤ conn.wire.sent.length ∧ conn.wire.sent.take read = WebSocket.framed got

variable {m : Medium} {packs : List Pack} {mid : Option EncodePc} {e : Sent}

theorem carries_new (t : Protocol) : Carries (new t) [] none := by
  cases t with
  | tcp | kcp => exact .stream ⟨rfl, rfl⟩ rfl
  | webSocket =>
    show Carries (.messages (carrying []) none) [] none
    exact .closed

theorem consumed_new (t : Protocol) : Consumed 0 [] (new t) := by
  cases t <;> exact ⟨Nat.le_refl 0, rfl⟩

/-- What has been read stays read when more goes out. -/
theorem consumed_of_prefix {α : Type} {sent sent' got : List α} {read : Nat} (h : sent <+: sent')
    (hread : read ≤ sent.length ∧ sent.take read = got) :
    read ≤ sent'.length ∧ sent'.take read = got := by
  refine ⟨hread.1.trans h.length_le, ?_⟩
  obtain ⟨tail, rfl⟩ := h
  rw [List.take_append_of_le_length hread.1]
  exact hread.2

theorem flatMap_framed (packs : List Pack) :
    (WebSocket.framed packs).flatMap Prod.snd = frameCode.encodeAll packs := by
  induction packs with
  | nil => rfl
  | cons p ps ih =>
    rw [StreamCode.encodeAll_cons, ← ih]
    rfl

/-- **What has gone out is the beginning of the frames.** -/
theorem Carries.sent_prefix (h : Carries m packs mid) : m.sent <+: frameCode.encodeAll packs := by
  cases h with
  | stream _ written =>
    rw [← written, Writer.written, List.append_assoc]
    exact List.prefix_append _ _
  | closed => exact (flatMap_framed packs).symm ▸ List.prefix_rfl
  | header | whole =>
    rw [StreamCode.encodeAll_append]
    exact (flatMap_framed _).symm ▸ List.prefix_append _ _

/-- The first write of `Encode`. -/
theorem Carries.writeFirst (h : Carries m packs none) (e : Sent) :
    ∃ m', m.writeFirst (packLenBytes e.bytes) = ((packLenBytes e.bytes).length, none, m') ∧
      Carries m' (packs ++ [e.bytes]) (some (.body e)) ∧
      ∀ read got, m.Consumed read got → m'.Consumed read got := by
  cases h with
  | @stream t out _ _ healthy written =>
    obtain ⟨out', hwrite, hhealthy, hwritten⟩ :=
      Writer.write_healthy healthy (packLenBytes e.bytes)
    have hsent := Writer.sent_prefix_write healthy (packLenBytes e.bytes)
    rw [hwrite] at hsent
    refine ⟨.stream t out', by simp only [Medium.writeFirst, hwrite], .stream hhealthy ?_,
      fun read got => consumed_of_prefix hsent⟩
    rw [Option.map_none, Option.getD_none, List.append_nil] at written
    rw [hwritten, written, StreamCode.encodeAll_append, List.append_assoc,
      StreamCode.encodeAll_singleton]
    rfl
  | closed => exact ⟨_, rfl, .header, fun _ _ => id⟩

/-- The second write. -/
theorem Carries.write (h : Carries m packs (some (.body e))) :
    ∃ m', m.write e.bytes = (e.bytes.length, none, m') ∧ Carries m' packs (some .flush) ∧
      ∀ read got, m.Consumed read got → m'.Consumed read got := by
  cases h with
  | @stream t out _ _ healthy written =>
    obtain ⟨out', hwrite, hhealthy, hwritten⟩ := Writer.write_healthy healthy e.bytes
    have hsent := Writer.sent_prefix_write healthy e.bytes
    rw [hwrite] at hsent
    refine ⟨.stream t out', by simp only [Medium.write, hwrite], .stream hhealthy ?_,
      fun read got => consumed_of_prefix hsent⟩
    rw [hwritten, ← written]
    exact List.append_nil _
  | header => exact ⟨_, rfl, .whole, fun _ _ => id⟩

/-- The last call of `Encode`. -/
theorem Carries.finish (h : Carries m packs (some .flush)) :
    ∃ m', m.finish = (none, m') ∧ Carries m' packs none ∧
      ∀ read got, m.Consumed read got → m'.Consumed read got := by
  cases h with
  | @stream t out _ _ healthy written =>
    obtain ⟨out', hflush, hhealthy, -, hwritten⟩ := Writer.flush_healthy healthy
    have hsent := Writer.sent_prefix_flush healthy
    rw [hflush] at hsent
    refine ⟨.stream t out', by simp only [Medium.finish, hflush], .stream hhealthy ?_,
      fun read got => consumed_of_prefix hsent⟩
    rw [hwritten]
    exact written
  | @whole packs pack =>
    have hframed := WebSocket.framed_append packs [pack]
    refine ⟨.messages (carrying (packs ++ [pack])) none, ?_, .closed, fun read got => ?_⟩
    · simp only [carrying, hframed]
      rfl
    · refine consumed_of_prefix ?_
      show WebSocket.framed packs <+: WebSocket.framed (packs ++ [pack])
      rw [hframed]
      exact List.prefix_append _ _

/-- The packs whose frames have gone out over WebSocket are the first ones. -/
theorem Carries.messages {conn : PlainConn} {writer : Option PlainWriter}
    (h : Carries (.messages conn writer) packs mid) :
    ∃ sent, conn.wire.sent = WebSocket.framed sent ∧ sent <+: packs := by
  cases h with
  | closed => exact ⟨packs, rfl, List.prefix_rfl⟩
  | header | whole => exact ⟨_, rfl, List.prefix_append _ _⟩

/-- What is left of the sent is what has not been read. -/
theorem consumed_of_eq_append {α : Type} {sent got rest : List α} (h : sent = got ++ rest) :
    sent.length - rest.length ≤ sent.length ∧ sent.take (sent.length - rest.length) = got := by
  refine ⟨Nat.sub_le _ _, ?_⟩
  rw [h, List.length_append, Nat.add_sub_cancel]
  exact List.take_left

/-- A message that has gone out is read as the pack that it frames. -/
theorem receive_framed {sent rest : List Message} {more : List Pack} {w : World} {pack : Pack}
    (hfits : ∀ p ∈ more, Fits p) (hsent : sent = WebSocket.framed more)
    (h : WebSocket.receive plainReceiver w sent = some (pack, rest)) :
    ∃ more', more = pack :: more' ∧ rest = WebSocket.framed more' := by
  subst hsent
  cases more with
  | nil => cases h
  | cons p more =>
    obtain ⟨⟨q, tail⟩, hparse, ⟨⟩⟩ :=
      Option.map_eq_some_iff.mp ((WebSocket.receive_eq w rfl).symm.trans h)
    obtain ⟨hlegal, hframe⟩ := frameCode_exact _ _ _ hparse
    have hsame : frame p ++ [] = frame q ++ tail := (List.append_nil _).trans hframe
    obtain ⟨rfl, -⟩ := frame_append_inj (hfits p List.mem_cons_self) hlegal.fits hsame
    exact ⟨more, rfl, rfl⟩

/-- The bytes behind the frames that have been read begin with the next frame. -/
theorem Carries.receive_stream {t : Stream} {out : Writer} (h : Carries (.stream t out) packs mid)
    (hfits : ∀ p ∈ packs, Fits p) {read n : Nat} {got : List Pack} {w : Kcp.Stats × World}
    {pack : Pack} (hread : Consumed read got (.stream t out)) (hgot : got <+: packs)
    (hr : receive w read (.stream t out) = some (pack, n)) :
    Consumed n (got ++ [pack]) (.stream t out) ∧ got ++ [pack] <+: packs := by
  obtain ⟨⟨_, rest⟩, hreceive, ⟨⟩⟩ := Option.map_eq_some_iff.mp hr
  rw [Stream.receive_eq] at hreceive
  obtain ⟨more, rfl⟩ := hgot
  have hsplit : out.conn.sent = frameCode.encodeAll got ++ out.conn.sent.drop read := by
    rw [← hread.2]
    exact (List.take_append_drop ..).symm
  have hpre : out.conn.sent.drop read <+: frameCode.encodeAll more := by
    have hsent : out.conn.sent <+: _ := h.sent_prefix
    rw [hsplit, StreamCode.encodeAll_append] at hsent
    exact (List.prefix_append_right_inj _).mp hsent
  obtain ⟨more', rfl, hunread, -⟩ := parseFrame_of_isPrefix
    (fun p hp => hfits p (List.mem_append_right _ hp)) hpre hreceive
  refine ⟨consumed_of_eq_append ?_, ?_⟩
  · rw [hsplit, hunread, StreamCode.encodeAll_append, StreamCode.encodeAll_singleton,
      List.append_assoc]
    rfl
  · rw [List.append_cons got pack more']
    exact List.prefix_append _ _

/-- The messages behind those that have been read begin with the next frame. -/
theorem Carries.receive_messages {conn : PlainConn} {writer : Option PlainWriter}
    (h : Carries (.messages conn writer) packs mid) (hfits : ∀ p ∈ packs, Fits p) {read n : Nat}
    {got : List Pack} {w : Kcp.Stats × World} {pack : Pack}
    (hread : Consumed read got (.messages conn writer)) (hgot : got <+: packs)
    (hr : receive w read (.messages conn writer) = some (pack, n)) :
    Consumed n (got ++ [pack]) (.messages conn writer) ∧ got ++ [pack] <+: packs := by
  obtain ⟨⟨_, rest⟩, hreceive, ⟨⟩⟩ := Option.map_eq_some_iff.mp hr
  obtain ⟨sent, hsent, hbegins⟩ := h.messages
  obtain ⟨hle, htake⟩ := hread
  rw [hsent] at hle htake
  have hlen : read = got.length := by
    have hlengths := congrArg List.length htake
    rwa [List.length_take_of_le hle, WebSocket.framed, List.length_map] at hlengths
  rw [hlen, WebSocket.framed, List.length_map] at hle
  -- the packs whose messages have gone out begin with those that were read
  obtain ⟨more, rfl⟩ := List.prefix_of_prefix_length_le hgot hbegins hle
  have hunread : conn.wire.sent.drop read = WebSocket.framed more := by
    rw [hsent, hlen, WebSocket.framed_append]
    exact List.drop_left' (List.length_map _)
  obtain ⟨more', rfl, rfl⟩ := receive_framed
    (fun p hp => hfits p (hbegins.subset (List.mem_append_right _ hp))) hunread hreceive
  rw [List.append_cons got pack more'] at hsent hbegins
  refine ⟨consumed_of_eq_append ?_, (List.prefix_append _ _).trans hbegins⟩
  rw [hsent, WebSocket.framed_append]

/-- **`Decode` reads the frame after those that have been read.** -/
theorem Carries.receive (h : Carries m packs mid) (hfits : ∀ p ∈ packs, Fits p) {read n : Nat}
    {got : List Pack} {w : Kcp.Stats × World} {pack : Pack} (hread : m.Consumed read got)
    (hgot : got <+: packs) (hr : m.receive w read = some (pack, n)) :
    m.Consumed n (got ++ [pack]) ∧ got ++ [pack] <+: packs := by
  cases m with
  | stream t out => exact h.receive_stream hfits hread hgot hr
  | messages conn writer => exact h.receive_messages hfits hread hgot hr

end Medium

namespace Lane

/-- The lane carries the frames of the log, and the receiver has read the first ones of them. -/
structure Ok (l : Lane) (mid : Option EncodePc) : Prop where
  fits : ∀ e ∈ l.log, Fits e.bytes
  carries : l.out.Carries (l.log.map Sent.bytes) mid
  consumed : l.out.Consumed l.read l.got
  got : l.got <+: l.log.map Sent.bytes
  opened : l.got.tail = l.opened.map Opened.bytes ++ l.hand.toList
  results : ∀ o ∈ l.opened, o.result = o.session.decrypt o.bytes

variable {l l' : Lane} {mid : Option EncodePc} {e : Sent} {w : Kcp.Stats × World} {pack : Pack}

theorem ok_init (t : Protocol) : (init t).Ok none :=
  ⟨nofun, Medium.carries_new t, Medium.consumed_new t, List.prefix_rfl, rfl, nofun⟩

/-- A step of the sender. -/
theorem Ok.of_send (h : l.Ok mid) {out : Medium} {more : List Sent} {mid' : Option EncodePc}
    (hcarries : out.Carries ((l.log ++ more).map Sent.bytes) mid')
    (hconsumed : ∀ read got, l.out.Consumed read got → out.Consumed read got)
    (hfits : ∀ e ∈ more, Fits e.bytes) : Ok { l with out := out, log := l.log ++ more } mid' := by
  refine ⟨?_, hcarries, hconsumed _ _ h.consumed, ?_, h.opened, h.results⟩
  · exact fun e he => (List.mem_append.mp he).elim (h.fits e) (hfits e)
  · show l.got <+: (l.log ++ more).map Sent.bytes
    rw [List.map_append]
    exact h.got.trans (List.prefix_append _ _)

/-- A step of the sender that writes no header. -/
theorem Ok.of_send_more (h : l.Ok mid) {out : Medium} {mid' : Option EncodePc}
    (hcarries : out.Carries (l.log.map Sent.bytes) mid')
    (hconsumed : ∀ read got, l.out.Consumed read got → out.Consumed read got) :
    Ok { l with out := out } mid' :=
  ⟨h.fits, hcarries, hconsumed _ _ h.consumed, h.got, h.opened, h.results⟩

/--
What a step of `Encode` does to the log, to the call of `Encode`, and to what the lane is in the
middle of.
-/
inductive Encodes (l l' : Lane) :
    Option EncodePc → EncodePc → EncodeNext → Option EncodePc → Prop
  | header (e : Sent) (log : l'.log = l.log ++ [e]) :
      Encodes l l' none (.header e) (.next (.body e)) (some (.body e))
  | body (e : Sent) (log : l'.log = l.log) :
      Encodes l l' (some (.body e)) (.body e) (.next .flush) (some .flush)
  | flush (log : l'.log = l.log) : Encodes l l' (some .flush) .flush .done none

theorem Encodes.log_eq {mid' : Option EncodePc} {pc : EncodePc} {next : EncodeNext}
    (h : Encodes l l' mid pc next mid') : l'.log = l.log ++ pc.header?.toList := by
  cases h with
  | header e hlog => exact hlog
  | body e hlog => exact hlog.trans (List.append_nil _).symm
  | flush hlog => exact hlog.trans (List.append_nil _).symm

/-- **A step of `Encode` that writes no header while another call is behind its own.** -/
theorem Ok.encodes (h : l.Ok mid) {pc : EncodePc} {next : EncodeNext}
    (hstep : l.encodeStep pc = (l', next))
    (hheader : ∀ e, pc = .header e → mid = none ∧ Fits e.bytes)
    (hbegun : ∀ pc', pc.begun? = some pc' → mid = some pc') :
    ∃ mid', l'.Ok mid' ∧ Encodes l l' mid pc next mid' := by
  cases pc with
  | header e =>
    obtain ⟨rfl, hfits⟩ := hheader e rfl
    obtain ⟨out, hout, hcarries, hconsumed⟩ := h.carries.writeFirst e
    simp only [encodeStep, hout] at hstep
    cases hstep
    refine ⟨_, h.of_send ?_ hconsumed ?_, .header e rfl⟩
    · rw [List.map_append]
      exact hcarries
    · exact fun e' he' => List.mem_singleton.mp he' ▸ hfits
  | body e =>
    obtain rfl := hbegun _ rfl
    obtain ⟨out, hout, hcarries, hconsumed⟩ := h.carries.write
    simp only [encodeStep, hout, ne_eq, not_true_eq_false, if_false] at hstep
    cases hstep
    exact ⟨_, h.of_send_more hcarries hconsumed, .body e rfl⟩
  | flush =>
    obtain rfl := hbegun _ rfl
    obtain ⟨out, hout, hcarries, hconsumed⟩ := h.carries.finish
    simp only [encodeStep, hout] at hstep
    cases hstep
    exact ⟨_, h.of_send_more hcarries hconsumed, .flush rfl⟩

/-- `Decode` reads the frame after those that have been read. -/
theorem Ok.decoded (h : l.Ok mid) (hd : l.decode w = some (pack, l')) :
    ∃ n, l' = { l with read := n, got := l.got ++ [pack] } ∧
      l.out.Consumed n (l.got ++ [pack]) ∧ l.got ++ [pack] <+: l.log.map Sent.bytes := by
  obtain ⟨⟨pack', n⟩, hreceive, ⟨⟩⟩ := Option.map_eq_some_iff.mp hd
  have hfits : ∀ p ∈ l.log.map Sent.bytes, Fits p := by
    intro p hp
    obtain ⟨e, he, rfl⟩ := List.mem_map.mp hp
    exact h.fits e he
  obtain ⟨hconsumed, hgot⟩ := h.carries.receive hfits h.consumed h.got hreceive
  exact ⟨n, rfl, hconsumed, hgot⟩

/-- The handshake decodes the first frame. -/
theorem Ok.decode_first (h : l.Ok mid) (hfirst : l.got = []) (hd : l.decode w = some (pack, l')) :
    l'.Ok mid ∧ l'.log = l.log ∧ l'.got = [pack] ∧ l'.opened = [] := by
  obtain ⟨n, rfl, hconsumed, hgot⟩ := h.decoded hd
  have hopened := h.opened
  rw [hfirst, List.tail_nil, eq_comm, List.append_eq_nil_iff, List.map_eq_nil_iff] at hopened
  refine ⟨⟨h.fits, h.carries, hconsumed, hgot, ?_, h.results⟩, rfl, ?_, hopened.1⟩
  · show (l.got ++ [pack]).tail = _
    rw [hfirst, hopened.1, hopened.2]
    rfl
  · show l.got ++ [pack] = _
    rw [hfirst]
    rfl

/-- The loop decodes a later frame. -/
theorem Ok.loopDecode (h : l.Ok mid) (hfirst : l.got ≠ []) (hd : l.loopDecode w = some l') :
    l'.Ok mid ∧ l'.log = l.log ∧ l'.got ≠ [] ∧ l'.opened = l.opened := by
  unfold Lane.loopDecode at hd
  split at hd
  · next pack l₁ hdecode hhand =>
    cases hd
    obtain ⟨n, rfl, hconsumed, hgot⟩ := h.decoded hdecode
    refine ⟨⟨h.fits, h.carries, hconsumed, hgot, ?_, h.results⟩, rfl, ?_, rfl⟩
    · show (l.got ++ [pack]).tail = _
      rw [List.tail_append_of_ne_nil hfirst, h.opened, hhand]
      simp
    · exact List.append_ne_nil_of_left_ne_nil hfirst _
  · cases hd

/-- The loop decrypts the frame that it has. -/
theorem Ok.loopDecrypt (h : l.Ok mid) {ss : Cryptor} {r : Except Err Pack}
    (hd : l.loopDecrypt ss = some (r, l')) :
    ∃ bytes, r = ss.decrypt bytes ∧ l'.opened = l.opened ++ [⟨bytes, ss, r⟩] ∧ l'.Ok mid ∧
      l'.log = l.log ∧ l'.got = l.got := by
  unfold Lane.loopDecrypt at hd
  split at hd
  · cases hd
  · next bytes hhand =>
    cases hd
    refine ⟨bytes, rfl, rfl, ?_, rfl, rfl⟩
    refine ⟨h.fits, h.carries, h.consumed, h.got, ?_, ?_⟩
    · rw [h.opened, hhand]
      simp
    · intro o ho
      rcases List.mem_append.mp ho with ho | ho
      · exact h.results o ho
      · rw [List.mem_singleton.mp ho]

/-- **The frames that the loop decrypts are those of the log, after the first one.** -/
theorem Ok.opened_sent (h : l.Ok mid) {k : Nat} {o : Opened} (ho : l.opened[k]? = some o) :
    ∃ e, l.log[k + 1]? = some e ∧ e.bytes = o.bytes := by
  have htail : l.got.tail[k]? = some o.bytes := by
    rw [h.opened, List.getElem?_append_left]
    · rw [List.getElem?_map, ho]
      rfl
    · rw [List.length_map]
      exact (List.getElem?_eq_some_iff.mp ho).1
  rw [List.getElem?_tail] at htail
  obtain ⟨rest, hrest⟩ := h.got
  have hlog : (l.log.map Sent.bytes)[k + 1]? = some o.bytes := by
    rw [← hrest, List.getElem?_append_left (List.getElem?_eq_some_iff.mp htail).1]
    exact htail
  rw [List.getElem?_map] at hlog
  exact Option.map_eq_some_iff.mp hlog

end Lane

end FabricaNet.Frame
