import FabricaNet.Go.Bufio
import FabricaNet.Internal.ReadPrefix

/-!
# How a stream is cut does not matter

A connection delivers its bytes in segments: what one `Encode` has written may arrive in pieces, and
several frames may arrive at once. `Decode` of TCP and KCP reads them through a `bufio.Reader`, with
`io.ReadFull` for the header and for the body.

`decodeVia` is `Decode` over any reader. On a plain stream it is `decode` of
`FabricaNet/Frame/Codec.lean`; on a `BufReader` it is what runs. Two readers that agree give the
same `Decode`, and two codecs that agree give the same loop, in every round and with every event.
-/

namespace FabricaNet.Frame

open Go Xnet Ringpool

variable {σ τ : Type}

/-- `io.ReadFull(r, buf)` over a reader. -/
def readIntoVia (readFull : Nat → σ → Option Err × Bytes × σ) (w : World) (buf : Slice) (s : σ) :
    Option Err × Nat × World × σ :=
  let (e, bytes, rest) := readFull buf.len s
  (e, bytes.length, { w with heap := w.heap.write buf bytes }, rest)

/-- `Codec.Decode` of TCP over a reader. -/
def Tcp.decodeVia (readFull : Nat → σ → Option Err × Bytes × σ) (w : World) (s : σ) :
    Decoded × World × σ :=
  match readFull 4 s with
  | (some e, _, rest) => (.err (.wrap e "read pack len failed"), w, rest)
  | (none, header, rest) =>
    let packLen := int32 header
    if badPackLen packLen then (.err errInvalidPackLen, w, rest)
    else
      let (buf, pool, heap) := w.pool.alloc w.heap packLen.toInt
      match readIntoVia readFull { pool := pool, heap := heap } buf rest with
      | (some _, _, w', rest') => (.panic, w', rest')
      | (none, n, w', rest') =>
        if (n : Int) < packLen.toInt then (.panic, w', rest') else (.ok buf, w', rest')

/-- `kcpCodec.Decode` over a reader. -/
def Kcp.decodeVia (readFull : Nat → σ → Option Err × Bytes × σ) (st : Stats) (w : World) (s : σ) :
    Decoded × Stats × World × σ :=
  let st := { st with totalDecodes := st.totalDecodes + 1 }
  match readFull 4 s with
  | (some e, _, rest) => (.err (.wrap e "read length failed"), st.decodeError, w, rest)
  | (none, header, rest) =>
    let length := int32 header
    if badPackLen length then
      (.err (.new ("invalid pack length: " ++ toString length.toInt)), st.decodeError, w, rest)
    else
      let st := { st with totalBytesIn := st.totalBytesIn + length.toInt64.toUInt64 }
      let (buf, pool, heap) := w.pool.alloc w.heap length.toInt
      let st :=
        if (buf.cap : Int) = length.toInt then { st with poolHits := st.poolHits + 1 }
        else { st with poolMisses := st.poolMisses + 1 }
      match readIntoVia readFull { pool := pool, heap := heap } buf rest with
      | (some _, _, w', rest') => (.panic, st.decodeError, w', rest')
      | (none, _, w', rest') => (.ok buf, st, w', rest')

theorem readIntoVia_readFull : readIntoVia readFull = readInto := rfl

theorem Tcp.decodeVia_readFull : Tcp.decodeVia readFull = Tcp.decode := by
  funext w s
  unfold Tcp.decodeVia Tcp.decode decodePack
  rcases readFull 4 s with ⟨_ | e, header, rest⟩
  · simp only [readIntoVia_readFull]
    split
    · rfl
    · rcases readInto _ _ rest with ⟨_ | e, n, w', rest'⟩ <;> rfl
  · rfl

theorem Kcp.decodeVia_readFull : Kcp.decodeVia readFull = Kcp.decode := by
  funext st w s
  unfold Kcp.decodeVia Kcp.decode
  rcases readFull 4 s with ⟨_ | e, header, rest⟩
  · simp only [readIntoVia_readFull]
    split
    · rfl
    · rcases readInto _ _ rest with ⟨_ | e, n, w', rest'⟩ <;> rfl
  · rfl

/-! ## Readers that agree -/

/-- `R` relates the states of two readers: they return the same, and their states stay related. -/
def SameReads (R : σ → τ → Prop) (read : Nat → σ → Option Err × Bytes × σ)
    (read' : Nat → τ → Option Err × Bytes × τ) : Prop :=
  ∀ n s t, R s t → ∃ e bytes s' t', read n s = (e, bytes, s') ∧ read' n t = (e, bytes, t') ∧ R s' t'

/-- `R` relates what two codecs read: they return the same pack in the same memory. -/
def SameDecode {ω : Type} (R : σ → τ → Prop) (decode : ω → σ → Decoded × World × σ)
    (decode' : ω → τ → Decoded × World × τ) : Prop :=
  ∀ x s t, R s t → ∃ d w s' t', decode x s = (d, w, s') ∧ decode' x t = (d, w, t') ∧ R s' t'

section
variable {R : σ → τ → Prop} {read : Nat → σ → Option Err × Bytes × σ}
  {read' : Nat → τ → Option Err × Bytes × τ} (hread : SameReads R read read')
include hread

theorem Tcp.sameDecode : SameDecode R (Tcp.decodeVia read) (Tcp.decodeVia read') := by
  intro w s t hst
  unfold Tcp.decodeVia
  obtain ⟨e, header, s', t', hs, ht, hst'⟩ := hread 4 s t hst
  rw [hs, ht]
  cases e with
  | some e => exact ⟨_, _, _, _, rfl, rfl, hst'⟩
  | none =>
    simp only
    by_cases hbad : badPackLen (int32 header) = true
    · rw [if_pos hbad, if_pos hbad]
      exact ⟨_, _, _, _, rfl, rfl, hst'⟩
    · rw [if_neg hbad, if_neg hbad]
      rcases w.pool.alloc w.heap (int32 header).toInt with ⟨buf, pool, heap⟩
      obtain ⟨e, bytes, s'', t'', hs', ht', hst''⟩ := hread buf.len s' t' hst'
      simp only [readIntoVia, hs', ht']
      cases e with
      | some e => exact ⟨_, _, _, _, rfl, rfl, hst''⟩
      | none =>
        simp only
        split
        · exact ⟨_, _, _, _, rfl, rfl, hst''⟩
        · exact ⟨_, _, _, _, rfl, rfl, hst''⟩

/-- The counters agree too. -/
theorem Kcp.sameDecode (st : Stats) (w : World) {s : σ} {t : τ} (hst : R s t) :
    ∃ d st' w' s' t', Kcp.decodeVia read st w s = (d, st', w', s') ∧
      Kcp.decodeVia read' st w t = (d, st', w', t') ∧ R s' t' := by
  unfold Kcp.decodeVia
  obtain ⟨e, header, s', t', hs, ht, hst'⟩ := hread 4 s t hst
  rw [hs, ht]
  cases e with
  | some e => exact ⟨_, _, _, _, _, rfl, rfl, hst'⟩
  | none =>
    simp only
    by_cases hbad : badPackLen (int32 header) = true
    · rw [if_pos hbad, if_pos hbad]
      exact ⟨_, _, _, _, _, rfl, rfl, hst'⟩
    · rw [if_neg hbad, if_neg hbad]
      rcases w.pool.alloc w.heap (int32 header).toInt with ⟨buf, pool, heap⟩
      obtain ⟨e, bytes, s'', t'', hs', ht', hst''⟩ := hread buf.len s' t' hst'
      simp only [readIntoVia, hs', ht']
      cases e with
      | some e => exact ⟨_, _, _, _, _, rfl, rfl, hst''⟩
      | none => exact ⟨_, _, _, _, _, rfl, rfl, hst''⟩

end

/-- A buffered connection and the stream that it has still to return. -/
def Buffers (b : BufReader) (s : Bytes) : Prop := b.Closes ∧ b.pending = s

theorem sameReads_buffered :
    SameReads Buffers (fun n b => BufReader.readFull b n) readFull := by
  rintro n b _ ⟨hb, rfl⟩
  obtain ⟨b', hread, hpending, hb'⟩ := BufReader.readFull_eq hb n
  exact ⟨_, _, b', _, hread, rfl, hb', hpending⟩

end FabricaNet.Frame

namespace FabricaNet.Internal

open Go Xnet FabricaNet.Frame

/-! ## Loops that agree -/

section
variable {ω σ τ : Type} {R : σ → τ → Prop} {decode : ω → σ → Decoded × World × σ}
  {decode' : ω → τ → Decoded × World × τ} (hdec : SameDecode R decode decode')
include hdec

theorem sameRead (r : Round ω) {s : σ} {t : τ} (hst : R s t) :
    ∃ e events s' t', read decode r s = (e, events, s') ∧ read decode' r t = (e, events, t') ∧
      R s' t' := by
  unfold read
  split
  · exact ⟨_, _, _, _, rfl, rfl, hst⟩
  · split
    · exact ⟨_, _, _, _, rfl, rfl, hst⟩
    · obtain ⟨d, w, s', t', hs, ht, hst'⟩ := hdec r.codec s t hst
      rw [hs, ht]
      cases d with
      | err e => exact ⟨_, _, _, _, rfl, rfl, hst'⟩
      | panic => exact ⟨_, _, _, _, rfl, rfl, hst'⟩
      | ok buf =>
        simp only
        split
        · exact ⟨_, _, _, _, rfl, rfl, hst'⟩
        · exact ⟨_, _, _, _, rfl, rfl, hst'⟩

theorem sameReadLoop (rs : List (Round ω)) {s : σ} {t : τ} (hst : R s t) :
    readLoop decode rs s = readLoop decode' rs t := by
  induction rs generalizing s t with
  | nil => rfl
  | cons r rs ih =>
    rw [readLoop, readLoop]
    split
    · rfl
    · obtain ⟨e, events, s', t', hs, ht, hst'⟩ := sameRead hdec r hst
      rw [hs, ht]
      cases e with
      | ok => simp only [ih hst']
      | err e => rfl
      | panic => rfl

theorem sameReceiveLoop (rs : List (DialogRound ω)) (deferred : List Slice) {s : σ} {t : τ}
    (hst : R s t) : receiveLoop decode rs deferred s = receiveLoop decode' rs deferred t := by
  induction rs generalizing deferred s t with
  | nil => rfl
  | cons r rs ih =>
    rw [receiveLoop, receiveLoop]
    split
    · rfl
    · split
      · rfl
      · obtain ⟨d, w, s', t', hs, ht, hst'⟩ := hdec r.codec s t hst
        rw [hs, ht]
        cases d with
        | err e => rfl
        | panic => rfl
        | ok buf => simp only [ih (buf :: deferred) hst']

end

/-- `Tcp.decodeVia` on a buffered connection. -/
def tcpDecodeConn : World → BufReader → Decoded × World × BufReader :=
  Tcp.decodeVia fun n b => b.readFull n

/-- `Kcp.decodeVia` on a buffered connection, on the counters and the pool. -/
def kcpDecodeConn (x : Kcp.Stats × World) (b : BufReader) : Decoded × World × BufReader :=
  let (r, _, w, rest) := Kcp.decodeVia (fun n b => BufReader.readFull b n) x.1 x.2 b
  (r, w, rest)

theorem tcp_sameDecode : SameDecode Buffers tcpDecodeConn Tcp.decode := by
  rw [← Tcp.decodeVia_readFull]
  exact Tcp.sameDecode sameReads_buffered

theorem kcp_sameDecode : SameDecode Buffers kcpDecodeConn kcpDecode := by
  intro x b s hbs
  obtain ⟨d, st, w, b', s', hb, hs, hbs'⟩ := Kcp.sameDecode sameReads_buffered x.1 x.2 hbs
  refine ⟨d, w, b', s', ?_, ?_, hbs'⟩
  · rw [kcpDecodeConn, hb]
  · rw [kcpDecode, ← Kcp.decodeVia_readFull, hs]

/-- The two loops do on this connection what they do on this stream. -/
structure LoopsAsOn (b : BufReader) (s : Bytes) : Prop where
  tcp_worker : ∀ rs, readLoop tcpDecodeConn rs b = readLoop Tcp.decode rs s
  kcp_worker : ∀ rs, readLoop kcpDecodeConn rs b = readLoop kcpDecode rs s
  tcp_dialog : ∀ rs, receiveLoop tcpDecodeConn rs [] b = receiveLoop Tcp.decode rs [] s
  kcp_dialog : ∀ rs, receiveLoop kcpDecodeConn rs [] b = receiveLoop kcpDecode rs [] s

/--
**However the connection cuts its stream into segments, both loops do the same on it as on the
stream in one piece**: they return the same errors and panics, in the same rounds, and decrypt, pass
on and free the same packs in the same buffers.
-/
theorem loops_any_segments (segments : List Bytes) (eager : Bool) :
    LoopsAsOn (.new ⟨segments, errEOF, eager⟩) segments.flatten := by
  have hbuffers : Buffers (.new ⟨segments, errEOF, eager⟩) segments.flatten :=
    ⟨BufReader.closes_new segments eager, rfl⟩
  exact
    { tcp_worker := fun rs => sameReadLoop tcp_sameDecode rs hbuffers
      kcp_worker := fun rs => sameReadLoop kcp_sameDecode rs hbuffers
      tcp_dialog := fun rs => sameReceiveLoop tcp_sameDecode rs [] hbuffers
      kcp_dialog := fun rs => sameReceiveLoop kcp_sameDecode rs [] hbuffers }

/-- A frame that arrives byte by byte, and another in the same segment as the end of the first. -/
example : decrypted (readLoop tcpDecodeConn
    (List.replicate 2 { codec := World.bare, decrypt := .ok, next := fun _ => .ok })
    (.new ⟨[[0], [0], [], [0, 2], [7], [8, 0, 0, 0, 1, 9]], errEOF, false⟩)).2 =
      [[7, 8], [9]] := by decide +kernel

end FabricaNet.Internal
