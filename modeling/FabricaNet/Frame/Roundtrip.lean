import FabricaNet.Frame.Codec
import FabricaNet.Lib.StreamCode

/-!
# Frames come back

What `Encode` writes and what `Decode` reads, in terms of one format.

* `frame`, `parseFrame` — the format: a big-endian length, then the pack
* `Tcp.encode_healthy`, `Kcp.encode_healthy`, `WebSocket.encode_healthy` — on a healthy connection
  every `Encode` writes `frame pack`, whatever the length of the pack
* `Tcp.receive_eq`, `Kcp.receive_eq`, `WebSocket.receive_eq` — every `Decode` reads what
  `parseFrame` reads, whatever the state of the pool
* `framing_roundtrip` — streams of packs whose length is legal
* `agrees_iff_legal` — the packs on which the two sides agree are those of legal length: only
  `Decode` checks it
-/

namespace FabricaNet.Frame

open Go Xnet Ringpool Lib

/-! ## The format -/

/-- The packs that `Decode` accepts. -/
def Legal (pack : Pack) : Prop := 1 ≤ pack.length ∧ pack.length ≤ maxPackSize.toInt.toNat

instance (pack : Pack) : Decidable (Legal pack) := instDecidableAnd

/-- A pack on the wire. -/
def frame (pack : Pack) : Bytes := packLenBytes pack ++ pack

/-- The pack at the front of a stream, and what follows it. -/
def parseFrame (s : Bytes) : Option (Pack × Bytes) :=
  let packLen := int32 (s.take 4)
  let body := s.drop 4
  if 4 ≤ s.length ∧ badPackLen packLen = false ∧ packLen.toInt.toNat ≤ body.length then
    some (body.take packLen.toInt.toNat, body.drop packLen.toInt.toNat)
  else none

theorem badPackLen_eq_false {n : Int32} :
    badPackLen n = false ↔ 1 ≤ n.toInt.toNat ∧ n.toInt.toNat ≤ maxPackSize.toInt.toNat := by
  have hmax : maxPackSize.toInt = 16384 := by decide
  have hzero : (0 : Int32).toInt = 0 := by decide
  unfold badPackLen
  rw [Bool.or_eq_false_iff, decide_eq_false_iff_not, decide_eq_false_iff_not, gt_iff_lt,
    Int32.le_iff_toInt_le, Int32.lt_iff_toInt_lt, hmax, hzero]
  omega

/-- The header of a legal pack is its length. -/
theorem toInt_packLen {pack : Pack} (h : Legal pack) :
    (int32 (packLenBytes pack)).toInt.toNat = pack.length := by
  have hmax : maxPackSize.toInt.toNat = 16384 := by decide
  have hle := h.2
  rw [packLenBytes, int32_putInt32, Int32.toInt_ofNat_of_lt (by omega)]
  rfl

theorem parseFrame_frame (pack : Pack) (rest : Bytes) (h : Legal pack) :
    parseFrame (frame pack ++ rest) = some (pack, rest) := by
  have hn := toInt_packLen h
  have htake : (frame pack ++ rest).take 4 = packLenBytes pack := by
    rw [frame, List.append_assoc]
    exact List.take_left' rfl
  have hdrop : (frame pack ++ rest).drop 4 = pack ++ rest := by
    rw [frame, List.append_assoc]
    exact List.drop_left' rfl
  unfold parseFrame
  simp only [htake, hdrop, hn]
  rw [if_pos, List.take_left, List.drop_left]
  refine ⟨?_, badPackLen_eq_false.mpr (by rw [hn]; exact h), ?_⟩
  · rw [frame, List.append_assoc, List.length_append]
    exact Nat.le_add_right 4 _
  · rw [List.length_append]
    exact Nat.le_add_right ..

/-- Only packs of legal length are read off a stream. -/
theorem legal_of_parseFrame {s rest : Bytes} {pack : Pack}
    (h : parseFrame s = some (pack, rest)) : Legal pack := by
  unfold parseFrame at h
  simp only at h
  split at h
  · next hc =>
    obtain ⟨rfl, -⟩ := Prod.mk.inj (Option.some.inj h)
    unfold Legal
    rw [List.length_take_of_le hc.2.2]
    exact badPackLen_eq_false.mp hc.2.1
  · cases h

/-- The frames as a code for streams. -/
def frameCode : StreamCode Pack UInt8 where
  encode := frame
  parse := parseFrame
  Legal := Legal
  parse_encode := parseFrame_frame
  parse_nil := rfl

/-- Nothing but a frame is read off a stream. -/
theorem frameCode_exact : frameCode.Exact := by
  intro s pack rest h
  have hlegal := legal_of_parseFrame h
  refine ⟨hlegal, ?_⟩
  change parseFrame s = _ at h
  unfold parseFrame at h
  simp only at h
  split at h
  · next hc =>
    obtain ⟨h4, hgood, hbody⟩ := hc
    obtain ⟨hpack, hrest⟩ := Prod.mk.inj (Option.some.inj h)
    have hpos := (badPackLen_eq_false.mp hgood).1
    have hlen : pack.length = (int32 (s.take 4)).toInt.toNat := by
      rw [← hpack, List.length_take_of_le hbody]
    have hheader : packLenBytes pack = s.take 4 := by
      have hint : Int32.ofNat pack.length = int32 (s.take 4) := by
        apply Int32.toInt_inj.mp
        have hle := hlegal.2
        have hmax : maxPackSize.toInt.toNat = 16384 := by decide
        rw [Int32.toInt_ofNat_of_lt (by omega)]
        omega
      rw [packLenBytes, hint]
      exact putInt32_int32 (List.length_take_of_le h4)
    show s = frame pack ++ rest
    rw [frame, hheader, ← hpack, ← hrest, List.append_assoc, List.take_append_drop,
      List.take_append_drop]
  · cases h

/-! ## Decoding is parsing -/

/-- The pack that `Decode` returns and the bytes that it leaves, when it returns no error. -/
def Decoded.received (r : Decoded) (w : World) {α : Type} (rest : α) : Option (Pack × α) :=
  match r with
  | .ok buf => some (w.heap.read buf, rest)
  | _ => none

/-- A body of `n` bytes is read into the buffer if the stream has as many. -/
theorem readInto_alloc (w : World) (n : Int) (s : Bytes) :
    (n.toNat ≤ s.length ∧ ∃ w', readInto ⟨(w.pool.alloc w.heap n).2.1, (w.pool.alloc w.heap n).2.2⟩
        (w.pool.alloc w.heap n).1 s = (none, n.toNat, w', s.drop n.toNat) ∧
      w'.heap.read (w.pool.alloc w.heap n).1 = s.take n.toNat) ∨
    (s.length < n.toNat ∧ ∃ e k w', readInto ⟨(w.pool.alloc w.heap n).2.1,
      (w.pool.alloc w.heap n).2.2⟩ (w.pool.alloc w.heap n).1 s = (some e, k, w', [])) := by
  have hlen := w.pool.alloc_len w.heap n
  generalize w.pool.alloc w.heap n = r at hlen ⊢
  obtain ⟨buf, pool, heap⟩ := r
  simp only at hlen
  rw [← hlen]
  unfold readInto readFull
  by_cases hle : buf.len ≤ s.length
  · have htake := List.length_take_of_le hle
    rw [if_pos hle]
    exact Or.inl ⟨hle, { pool := pool, heap := heap.write buf (s.take buf.len) },
      by simp only [htake], Heap.read_write htake⟩
  · rw [if_neg hle]
    exact Or.inr ⟨Nat.lt_of_not_le hle, _, _, _, rfl⟩

theorem parseFrame_of_short {s : Bytes} (h : ¬4 ≤ s.length) : parseFrame s = none :=
  if_neg fun hc => h hc.1

theorem parseFrame_of_bad {s : Bytes} (h : badPackLen (int32 (s.take 4)) = true) :
    parseFrame s = none :=
  if_neg fun hc => absurd hc.2.1 (by rw [h]; decide)

theorem decodePack_eq (e : Err) (w : World) (s : Bytes) :
    (decodePack e w s).1.received (decodePack e w s).2.1 (decodePack e w s).2.2 =
      parseFrame s := by
  unfold decodePack
  by_cases h4 : 4 ≤ s.length
  · simp only [readFull, if_pos h4]
    cases hbad : badPackLen (int32 (s.take 4)) with
    | true => simp only [if_true, Decoded.received, parseFrame_of_bad hbad]
    | false =>
      have hn : ¬((int32 (s.take 4)).toInt.toNat : Int) < (int32 (s.take 4)).toInt := by omega
      rcases readInto_alloc w (int32 (s.take 4)).toInt (s.drop 4) with
        ⟨hle, w', hread, hbuf⟩ | ⟨hlt, e', n, w', hread⟩
      · simp only [Bool.false_eq_true, if_false, hread, if_neg hn, Decoded.received, hbuf,
          parseFrame, if_pos (And.intro h4 (And.intro hbad hle))]
      · simp only [Bool.false_eq_true, if_false, hread, Decoded.received, parseFrame,
          if_neg fun hc : _ ∧ _ ∧ _ => absurd hc.2.2 (Nat.not_le.mpr hlt)]
  · simp only [readFull, h4, if_false, Decoded.received, parseFrame_of_short h4]

/-- Several calls of `Decode`. Between two calls anything may happen to the pool. -/
def receiveAll {ω : Type} (receive : ω → Bytes → Option (Pack × Bytes)) :
    List ω → Bytes → Option (List Pack × Bytes)
  | [], s => some ([], s)
  | w :: ws, s =>
    match receive w s with
    | none => none
    | some (pack, s') => (receiveAll receive ws s').map fun r => (pack :: r.1, r.2)

theorem receiveAll_eq {ω : Type} {receive : ω → Bytes → Option (Pack × Bytes)}
    (h : ∀ w s, receive w s = parseFrame s) (ws : List ω) (s : Bytes) :
    receiveAll receive ws s = frameCode.parseAll ws.length s := by
  induction ws generalizing s with
  | nil => rfl
  | cons w ws ih =>
    rw [receiveAll, List.length_cons, StreamCode.parseAll, h,
      show frameCode.parse s = parseFrame s from rfl]
    cases parseFrame s with
    | none => rfl
    | some r => simp only [ih]

/-! ## Encoding writes a frame -/

/-- The writes that the `Encode` of TCP and of KCP make. -/
theorem write_frame_healthy {w : Writer} (h : w.Healthy) (pack : Pack) :
    ∃ w₁ w₂ w₃, w.write (packLenBytes pack) = (4, none, w₁) ∧
      w₁.write pack = (pack.length, none, w₂) ∧ w₂.flush = (none, w₃) ∧
      w₃.Healthy ∧ w₃.buf = [] ∧ w₃.conn.sent = w.written ++ frame pack := by
  obtain ⟨w₁, hw₁, h₁, hwritten₁⟩ := Writer.write_healthy h (packLenBytes pack)
  obtain ⟨w₂, hw₂, h₂, hwritten₂⟩ := Writer.write_healthy h₁ pack
  obtain ⟨w₃, hw₃, h₃, hbuf, hwritten₃⟩ := Writer.flush_healthy h₂
  refine ⟨w₁, w₂, w₃, hw₁, hw₂, hw₃, h₃, hbuf, ?_⟩
  rw [hwritten₂, hwritten₁, Writer.written, hbuf, List.append_nil] at hwritten₃
  rw [hwritten₃, frame, List.append_assoc]

/-- Several calls of `Encode`, as long as each of them returns nil. -/
def sendAll {ω : Type} (encode : ω → Writer → Pack → Option Err × ω × Writer) :
    ω → Writer → List Pack → Option Writer
  | _, w, [] => some w
  | x, w, pack :: packs =>
    match encode x w pack with
    | (none, x', w') => sendAll encode x' w' packs
    | (some _, _, _) => none

/-- An `Encode` that writes the frame of any pack. -/
def WritesFrames {ω : Type} (encode : ω → Writer → Pack → Option Err × ω × Writer) : Prop :=
  ∀ x w pack, w.Healthy → ∃ x' w', encode x w pack = (none, x', w') ∧ w'.Healthy ∧ w'.buf = [] ∧
    w'.conn.sent = w.written ++ frame pack

theorem WritesFrames.sendAll {ω : Type} {encode : ω → Writer → Pack → Option Err × ω × Writer}
    (henc : WritesFrames encode) (x : ω) {w : Writer} (h : w.Healthy) (hbuf : w.buf = [])
    (packs : List Pack) :
    ∃ w', Frame.sendAll encode x w packs = some w' ∧
      w'.conn.sent = w.conn.sent ++ frameCode.encodeAll packs := by
  induction packs generalizing x w with
  | nil => exact ⟨w, rfl, (List.append_nil _).symm⟩
  | cons pack packs ih =>
    obtain ⟨x₁, w₁, hw₁, h₁, hbuf₁, hsent₁⟩ := henc x w pack h
    obtain ⟨w', hw', hsent⟩ := ih x₁ h₁ hbuf₁
    refine ⟨w', by simp only [Frame.sendAll, hw₁, hw'], ?_⟩
    rw [hsent, hsent₁, Writer.written, hbuf, List.append_nil, List.append_assoc,
      StreamCode.encodeAll_cons]
    rfl

/-! ## The codecs -/

namespace Tcp

/-- `Encode`, with nothing beside the writer. -/
def send (_ : Unit) (w : Writer) (pack : Pack) : Option Err × Unit × Writer :=
  ((encode w pack).1, (), (encode w pack).2)

/-- **On a healthy connection `Encode` writes the frame of any pack.** -/
theorem writesFrames : WritesFrames send := by
  intro x w pack h
  obtain ⟨w₁, w₂, w₃, hw₁, hw₂, hw₃, hrest⟩ := write_frame_healthy h pack
  refine ⟨(), w₃, ?_, hrest⟩
  simp only [send, encode, hw₁, hw₂, hw₃, ne_eq, not_true_eq_false, if_false]

/-- The pack that `Decode` returns and the bytes that it leaves. -/
def receive (w : World) (s : Bytes) : Option (Pack × Bytes) :=
  let (r, w', rest) := decode w s
  r.received w' rest

theorem receive_eq (w : World) (s : Bytes) : receive w s = parseFrame s := decodePack_eq ..

end Tcp

namespace Kcp

/-- **On a healthy connection `Encode` writes the frame of any pack.** -/
theorem writesFrames : WritesFrames encode := by
  intro st w pack h
  obtain ⟨w₁, w₂, w₃, hw₁, hw₂, hw₃, hrest⟩ := write_frame_healthy h pack
  refine ⟨(encode st w pack).2.1, w₃, ?_, hrest⟩
  simp only [encode, hw₁, hw₂, hw₃]

/-- The pack that `Decode` returns and the bytes that it leaves. -/
def receive (w : Stats × World) (s : Bytes) : Option (Pack × Bytes) :=
  let (r, _, w', rest) := decode w.1 w.2 s
  r.received w' rest

theorem receive_eq (w : Stats × World) (s : Bytes) : receive w s = parseFrame s := by
  unfold receive decode
  by_cases h4 : 4 ≤ s.length
  · simp only [readFull, if_pos h4]
    cases hbad : badPackLen (int32 (s.take 4)) with
    | true => simp only [if_true, Decoded.received, parseFrame_of_bad hbad]
    | false =>
      rcases readInto_alloc w.2 (int32 (s.take 4)).toInt (s.drop 4) with
        ⟨hle, w', hread, hbuf⟩ | ⟨hlt, e', n, w', hread⟩
      · simp only [Bool.false_eq_true, if_false, hread, Decoded.received, hbuf,
          parseFrame, if_pos (And.intro h4 (And.intro hbad hle))]
      · simp only [Bool.false_eq_true, if_false, hread, Decoded.received, parseFrame,
          if_neg fun hc : _ ∧ _ ∧ _ => absurd hc.2.2 (Nat.not_le.mpr hlt)]
  · simp only [readFull, h4, if_false, Decoded.received, parseFrame_of_short h4]

end Kcp

namespace WebSocket

section
variable {κ μ ρ : Type} (g : MessageSender κ μ) (r : MessageReceiver ρ)

/--
**`Encode` sends the frame of any pack as one message, and on a healthy connection it does not
fail.** Where it fails, a beginning of the message may have gone out, and the connection is broken.
-/
theorem encode_cases (c : κ) (pack : Pack) :
    (∃ c', encode g c pack = (none, c') ∧ (g.Healthy c → g.Healthy c') ∧
      g.wire c' = (g.wire c).push (messageType, frame pack)) ∨
    ¬g.Healthy c ∧ ∃ e c', encode g c pack = (some e, c') ∧
      (g.wire c).Breaks (messageType, frame pack) (g.wire c') := by
  unfold encode encodeMessage
  rcases g.nextWriter_cases c with ⟨w, hnext, hw⟩ | ⟨hbad, e, c', hnext, hwire⟩
  · rw [messageType, hnext]
    dsimp only
    rcases g.write_cases w c _ _ (packLenBytes pack) hw with
      ⟨w₁, hwrite, hw₁⟩ | ⟨hbad, n, e, w₁, hwrite, hw₁⟩
    · rw [hwrite]
      dsimp only
      rcases g.write_cases w₁ c _ _ pack hw₁ with
        ⟨w₂, hwrite', hw₂⟩ | ⟨hbad, n, e, w₂, hwrite', hw₂⟩
      · rw [hwrite']
        simp only [ne_eq, not_true_eq_false, if_false]
        rcases g.close_cases w₂ c _ hw₂ with ⟨c', hclose, hc'⟩ | ⟨hbad, e, c', hclose, hc'⟩
        · rw [hclose]
          exact .inl ⟨c', rfl, hc'⟩
        · rw [hclose]
          exact .inr ⟨hbad, _, c', rfl, hc'⟩
      · obtain ⟨e', c', hclose, hc'⟩ := g.close_fails w₂ c _ hw₂
        rw [hwrite']
        dsimp only
        rw [hclose]
        exact .inr ⟨hbad, _, c', rfl, hc'⟩
    · obtain ⟨e', c', hclose, hc'⟩ := g.close_fails w₁ c _ hw₁
      rw [hwrite]
      dsimp only
      rw [hclose]
      exact .inr ⟨hbad, _, c', rfl, hc'.append pack⟩
  · rw [messageType, hnext]
    exact .inr ⟨hbad, _, c', rfl, hwire ▸ .nothing⟩

variable {g r}

theorem encode_healthy {c : κ} (h : g.Healthy c) (pack : Pack) :
    ∃ c', encode g c pack = (none, c') ∧ g.Healthy c' ∧
      g.wire c' = (g.wire c).push (messageType, frame pack) := by
  rcases encode_cases g c pack with ⟨c', hencode, hhealthy, hwire⟩ | ⟨hbad, -⟩
  · exact ⟨c', hencode, hhealthy h, hwire⟩
  · exact absurd h hbad

variable (r)

/-- The pack that `Decode` returns and the connection that it leaves. -/
def receive (w : World) (c : ρ) : Option (Pack × ρ) :=
  let (d, w', c') := decode r w c
  d.received w' c'

variable {r}

/-- The messages that `Encode` sends for the packs. -/
def framed (packs : List Pack) : List Message := packs.map fun p => (messageType, frame p)

theorem framed_append (packs packs' : List Pack) :
    framed (packs ++ packs') = framed packs ++ framed packs' := List.map_append

theorem receive_eq (w : World) {c c' : ρ} {message : Bytes}
    (h : r.nextReader c = (.ok (messageType, message), c')) :
    receive r w c = (parseFrame message).map fun x => (x.1, c') := by
  rw [← decodePack_eq errInvalidPackLen w message]
  simp only [receive, decode, h, ne_eq, not_true_eq_false, if_false]
  cases (decodePack errInvalidPackLen w message).1 <;> rfl

end

end WebSocket

/-! ## Streams -/

section
variable {ω ω' : Type} (encode : ω → Writer → Pack → Option Err × ω × Writer)
  (receive : ω' → Bytes → Option (Pack × Bytes))

/--
The packs can be written to any healthy connection, and as many calls of `Decode` on what was
written, with anything behind it, return the packs and leave what was behind.
-/
def Roundtrip (packs : List Pack) : Prop :=
  ∀ x w, w.Healthy → w.buf = [] → ∃ w' stream, sendAll encode x w packs = some w' ∧
    w'.conn.sent = w.conn.sent ++ stream ∧
    ∀ rest ys, ys.length = packs.length →
      receiveAll receive ys (stream ++ rest) = some (packs, rest)

/-- What is written for the first packs begins what is written for the others only if they do. -/
def PrefixOnly (packs packs' : List Pack) : Prop :=
  ∀ x w w' stream y v v' stream', w.Healthy → w.buf = [] → v.Healthy → v.buf = [] →
    sendAll encode x w packs = some w' → w'.conn.sent = w.conn.sent ++ stream →
    sendAll encode y v packs' = some v' → v'.conn.sent = v.conn.sent ++ stream' →
    stream <+: stream' → packs <+: packs'

variable {encode receive}

theorem roundtrip_of_legal (henc : WritesFrames encode) (hdec : ∀ y s, receive y s = parseFrame s)
    {packs : List Pack} (h : ∀ pack ∈ packs, Legal pack) : Roundtrip encode receive packs := by
  intro x w hw hbuf
  obtain ⟨w', hsend, hsent⟩ := henc.sendAll x hw hbuf packs
  refine ⟨w', _, hsend, hsent, fun rest ys hys => ?_⟩
  rw [receiveAll_eq hdec, hys]
  exact StreamCode.parseAll_encodeAll h rest

theorem prefixOnly_of_legal (henc : WritesFrames encode) {packs packs' : List Pack}
    (h : ∀ pack ∈ packs, Legal pack) (h' : ∀ pack ∈ packs', Legal pack) :
    PrefixOnly encode packs packs' := by
  intro x w w' stream y v v' stream' hw hwbuf hv hvbuf hsend hsent hsend' hsent' hpre
  obtain ⟨_, hsend₁, hsent₁⟩ := henc.sendAll x hw hwbuf packs
  obtain ⟨_, hsend₂, hsent₂⟩ := henc.sendAll y hv hvbuf packs'
  cases hsend.symm.trans hsend₁
  cases hsend'.symm.trans hsend₂
  rw [hsent, List.append_cancel_left_eq] at hsent₁
  rw [hsent', List.append_cancel_left_eq] at hsent₂
  rw [hsent₁, hsent₂] at hpre
  exact StreamCode.isPrefix_of_encodeAll_isPrefix h h' hpre

end

/--
**TCP and KCP streams of packs of legal length come back as they were, and fall apart in one way
only.**
-/
theorem framing_roundtrip {packs packs' : List Pack} (h : ∀ pack ∈ packs, Legal pack)
    (h' : ∀ pack ∈ packs', Legal pack) :
    (Roundtrip Tcp.send Tcp.receive packs ∧ PrefixOnly Tcp.send packs packs') ∧
      Roundtrip Kcp.encode Kcp.receive packs ∧ PrefixOnly Kcp.encode packs packs' :=
  ⟨⟨roundtrip_of_legal Tcp.writesFrames Tcp.receive_eq h,
    prefixOnly_of_legal Tcp.writesFrames h h'⟩,
    roundtrip_of_legal Kcp.writesFrames Kcp.receive_eq h,
    prefixOnly_of_legal Kcp.writesFrames h h'⟩

theorem framing_roundtrip_two_packs :
    (Roundtrip Tcp.send Tcp.receive [[1, 2], [3]] ∧
        PrefixOnly Tcp.send [[1, 2], [3]] [[1, 2], [3], [4]]) ∧
      Roundtrip Kcp.encode Kcp.receive [[1, 2], [3]] ∧
        PrefixOnly Kcp.encode [[1, 2], [3]] [[1, 2], [3], [4]] :=
  framing_roundtrip (by decide) (by decide)

/-! ## Where the two sides agree -/

section
variable {ω ω' : Type} (encode : ω → Writer → Pack → Option Err × ω × Writer)
  (receive : ω' → Bytes → Option (Pack × Bytes))

/-- A pack that `Encode` writes without error to a healthy connection is decoded by the peer. -/
def Agrees (pack : Pack) : Prop :=
  ∀ x w x' w' bytes y, w.Healthy → w.buf = [] → encode x w pack = (none, x', w') →
    w'.conn.sent = w.conn.sent ++ bytes → receive y bytes = some (pack, [])

/-- A pack that `Decode` would reject is refused by `Encode` before a byte is written. -/
def RefusesIllegal (pack : Pack) : Prop :=
  ¬Legal pack → ∀ x w, w.Healthy → ∃ e x' w', encode x w pack = (some e, x', w') ∧
    w'.written = w.written

variable {encode receive}

theorem agrees_iff [Nonempty ω] [Nonempty ω'] (henc : WritesFrames encode)
    (hdec : ∀ y s, receive y s = parseFrame s) {pack : Pack} :
    Agrees encode receive pack ↔ Legal pack := by
  constructor
  · intro h
    obtain ⟨x⟩ := ‹Nonempty ω›
    obtain ⟨y⟩ := ‹Nonempty ω'›
    have hw : Writer.Healthy ⟨⟨[], none⟩, [], none⟩ := ⟨rfl, rfl⟩
    obtain ⟨x', w', hencode, -, -, hsent⟩ := henc x _ pack hw
    have hread := h x _ x' w' _ y hw rfl hencode hsent
    rw [hdec] at hread
    exact legal_of_parseFrame hread
  · intro hlegal x w x' w' bytes y hw hbuf hencode hsent
    obtain ⟨_, _, hencode', -, -, hsent'⟩ := henc x w pack hw
    cases hencode.symm.trans hencode'
    rw [Writer.written, hbuf, List.append_nil, hsent, List.append_cancel_left_eq] at hsent'
    have hread := parseFrame_frame pack [] hlegal
    rw [List.append_nil] at hread
    rw [hsent', hdec, hread]

theorem refusesIllegal_iff [Nonempty ω] (henc : WritesFrames encode) {pack : Pack} :
    RefusesIllegal encode pack ↔ Legal pack := by
  constructor
  · intro h
    by_contra hillegal
    obtain ⟨x⟩ := ‹Nonempty ω›
    have hw : Writer.Healthy ⟨⟨[], none⟩, [], none⟩ := ⟨rfl, rfl⟩
    obtain ⟨e, x', w', hrefuse, -⟩ := h hillegal x _ hw
    obtain ⟨_, _, hencode, -⟩ := henc x _ pack hw
    cases hrefuse.symm.trans hencode
  · intro hlegal hillegal
    exact absurd hlegal hillegal

end

namespace WebSocket

section
variable {κ μ ρ : Type} (g : MessageSender κ μ) (r : MessageReceiver ρ)

/-- A pack that `Encode` writes without error to a healthy connection is decoded by the peer. -/
def Agrees (pack : Pack) : Prop :=
  ∀ c c' messages w d, g.Healthy c → encode g c pack = (none, c') →
    (g.wire c').sent = (g.wire c).sent ++ messages → r.messages d = messages →
    ∃ d', receive r w d = some (pack, d') ∧ r.messages d' = []

/-- A pack that `Decode` would reject is refused by `Encode` before a byte is written. -/
def RefusesIllegal (pack : Pack) : Prop :=
  ¬Legal pack → ∀ c, g.Healthy c → ∃ e c', encode g c pack = (some e, c') ∧ g.wire c' = g.wire c

end

end WebSocket

/-- A pool without a size class: every buffer is made on the heap. -/
def World.bare : World where
  pool := ⟨∅, [], .nil, fun size => by simp, fun size pool h => by simp at h⟩
  heap := ⟨0, fun _ => []⟩

instance : Nonempty World := ⟨World.bare⟩

namespace WebSocket

section
variable {κ μ ρ : Type} (g : MessageSender κ μ) (r : MessageReceiver ρ)

theorem agrees_iff {pack : Pack} : Agrees g r pack ↔ Legal pack := by
  constructor
  · intro h
    obtain ⟨c', hencode, -, hwire⟩ := encode_healthy g.healthy_fresh pack
    have hmessages := r.messages_holding [(messageType, frame pack)]
    obtain ⟨d', hread, -⟩ := h g.fresh c' _ World.bare _ g.healthy_fresh hencode
      (congrArg Wire.sent hwire) hmessages
    obtain ⟨d₁, hnext, -⟩ := r.nextReader_cons _ _ _ hmessages
    rw [receive_eq _ hnext] at hread
    obtain ⟨x, hx, hpack⟩ := Option.map_eq_some_iff.mp hread
    cases hpack
    exact legal_of_parseFrame hx
  · intro hlegal c c' messages w d hc hencode hsent hmessages
    obtain ⟨c₁, hencode₁, -, hwire⟩ := encode_healthy hc pack
    cases hencode.symm.trans hencode₁
    rw [hwire, Wire.push, List.append_cancel_left_eq] at hsent
    obtain ⟨d', hnext, hd'⟩ := r.nextReader_cons d _ _ (hmessages.trans hsent.symm)
    have hread := parseFrame_frame pack [] hlegal
    rw [List.append_nil] at hread
    rw [receive_eq w hnext, hread]
    exact ⟨d', rfl, hd'⟩

theorem refusesIllegal_iff {pack : Pack} : RefusesIllegal g pack ↔ Legal pack := by
  constructor
  · intro h
    by_contra hillegal
    obtain ⟨e, c', hrefuse, -⟩ := h hillegal _ g.healthy_fresh
    obtain ⟨_, hencode, -⟩ := encode_healthy g.healthy_fresh pack
    cases hrefuse.symm.trans hencode
  · intro hlegal hillegal
    exact absurd hlegal hillegal

end

end WebSocket

/--
**Encoder and decoder agree exactly on the packs of legal length, and no encoder refuses a pack of
any other length.**
-/
theorem agrees_iff_legal {κ μ ρ : Type} (g : MessageSender κ μ) (r : MessageReceiver ρ)
    (pack : Pack) :
    ((Agrees Tcp.send Tcp.receive pack ↔ Legal pack) ∧
        (RefusesIllegal Tcp.send pack ↔ Legal pack)) ∧
      ((Agrees Kcp.encode Kcp.receive pack ↔ Legal pack) ∧
        (RefusesIllegal Kcp.encode pack ↔ Legal pack)) ∧
      (WebSocket.Agrees g r pack ↔ Legal pack) ∧
        (WebSocket.RefusesIllegal g pack ↔ Legal pack) := by
  have : Nonempty Kcp.Stats := ⟨{}⟩
  refine ⟨⟨agrees_iff Tcp.writesFrames Tcp.receive_eq, refusesIllegal_iff Tcp.writesFrames⟩,
    ⟨agrees_iff Kcp.writesFrames Kcp.receive_eq, refusesIllegal_iff Kcp.writesFrames⟩,
    WebSocket.agrees_iff g r, WebSocket.refusesIllegal_iff g⟩

/-- The empty pack: every encoder writes four zero bytes for it, and every decoder rejects them. -/
theorem empty_pack_rejected :
    (Tcp.encode ⟨⟨[], none⟩, [], none⟩ [] = (none, ⟨⟨[0, 0, 0, 0], none⟩, [], none⟩) ∧
        (Tcp.decode World.bare [0, 0, 0, 0]).1 = .err Tcp.errInvalidPackLen) ∧
      ((Kcp.encode {} ⟨⟨[], none⟩, [], none⟩ []).1 = none ∧
        (Kcp.encode {} ⟨⟨[], none⟩, [], none⟩ []).2.2 = ⟨⟨[0, 0, 0, 0], none⟩, [], none⟩ ∧
        (Kcp.decode {} World.bare [0, 0, 0, 0]).1 = .err (.new "invalid pack length: 0")) ∧
      WebSocket.encode plainSender plainSender.fresh [] =
        (none, ⟨⟨[(2, [0, 0, 0, 0])], none, false⟩, none⟩) ∧
      (WebSocket.decode plainReceiver World.bare [(2, [0, 0, 0, 0])]).1 =
        .err WebSocket.errInvalidPackLen := by
  refine ⟨⟨rfl, rfl⟩, ⟨rfl, rfl, rfl⟩, rfl, rfl⟩

end FabricaNet.Frame
