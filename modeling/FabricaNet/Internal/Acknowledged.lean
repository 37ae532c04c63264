import FabricaNet.Go.Broken
import FabricaNet.Internal.Segmented

/-!
# What a broken connection still delivers

`Encode` flushes, so it returns nil only when all bytes of the frame have been sent, and an error
stays with the writer. So where a connection breaks, the results of `Encode` say which packs the
peer gets: `readLoop` on the other side decrypts the packs whose `Encode` has returned nil, and no
other, however the bytes are cut into segments.

* `HandsFrames` — what `Encode` does on a connection that breaks
* `encodeEach_spec` — the packs that are acknowledged are those whose frames fit
* `acknowledged_delivered` — both ends together
-/

namespace FabricaNet.Frame

open Go Xnet Lib

variable {ω : Type} {limit : Nat} {handed : Bytes} {w : Writer}

/-- A writer without an error has sent everything. -/
def Flushed (w : Writer) : Prop := w.err = none → w.buf = []

/-- An `Encode` hands the frame to the writer, and returns an error if the writer keeps one. -/
def HandsFrames (encode : ω → Writer → Pack → Option Err × ω × Writer) : Prop :=
  ∀ x w pack limit handed, w.Upto limit handed → ∃ e x' w', encode x w pack = (e, x', w') ∧
    w'.Upto limit (handed ++ frame pack) ∧ (e = none ↔ w'.err = none) ∧ Flushed w'

theorem upto_of_err (h : w.Upto limit handed) {e : Err} (he : some e = w.err) (p : Bytes) :
    w.Upto limit (handed ++ p) := by
  cases h with
  | live err _ _ => exact absurd (he.trans err) nofun
  | dead err sent lt => exact .append_of_dead err sent lt p

theorem flushed_of_err {e : Err} (he : some e = w.err) : Flushed w := fun hnone =>
  absurd (he.trans hnone) nofun

/-- A writer that has sent everything has an error if it was handed too much. -/
theorem err_none_iff (h : w.Upto limit handed) (hflushed : Flushed w) :
    w.err = none ↔ handed.length ≤ limit := by
  cases h with
  | dead err sent lt =>
    rw [err]
    exact ⟨nofun, fun hle => absurd hle (Nat.not_le.mpr lt)⟩
  | live err breaks written =>
    refine ⟨fun _ => ?_, fun _ => err⟩
    rw [← written, Writer.written, hflushed err, List.append_nil]
    exact breaks.length_le

theorem sent_eq (h : w.Upto limit handed) (hflushed : Flushed w) :
    w.conn.sent = handed.take limit := by
  cases h with
  | dead err sent lt => exact sent
  | live err breaks written =>
    have hsent : w.conn.sent = handed := by
      rw [← written, Writer.written, hflushed err, List.append_nil]
    rw [← hsent, List.take_of_length_le breaks.length_le]

/-! ## The codecs -/

/-- The writes that the `Encode` of TCP and of KCP make, up to the first error. -/
inductive FrameWrites (limit : Nat) (handed : Bytes) (pack : Pack) (w : Writer) : Prop
  | header {n : Nat} {e : Err} {w' : Writer} (write : w.write (packLenBytes pack) = (n, some e, w'))
      (upto : w'.Upto limit (handed ++ frame pack)) (err : some e = w'.err)
  | body {n m : Nat} {e : Err} {w₁ w' : Writer}
      (write : w.write (packLenBytes pack) = (n, none, w₁))
      (write' : w₁.write pack = (m, some e, w')) (upto : w'.Upto limit (handed ++ frame pack))
      (err : some e = w'.err)
  | flush {n : Nat} {e : Option Err} {w₁ w₂ w' : Writer}
      (write : w.write (packLenBytes pack) = (n, none, w₁))
      (write' : w₁.write pack = (pack.length, none, w₂)) (flush : w₂.flush = (e, w'))
      (upto : w'.Upto limit (handed ++ frame pack)) (err : e = w'.err) (flushed : Flushed w')

theorem frameWrites_of_upto (h : w.Upto limit handed) (pack : Pack) :
    FrameWrites limit handed pack w := by
  obtain ⟨n, e₁, w₁, hw₁, ⟨h₁, he₁⟩, -⟩ := Writer.write_upto h (packLenBytes pack)
  cases e₁ with
  | some e =>
    have hupto := upto_of_err h₁ he₁ pack
    rw [List.append_assoc] at hupto
    exact .header hw₁ hupto he₁
  | none =>
    obtain ⟨m, e₂, w₂, hw₂, ⟨h₂, he₂⟩, hm⟩ := Writer.write_upto h₁ pack
    rw [List.append_assoc] at h₂
    cases e₂ with
    | some e => exact .body hw₁ hw₂ h₂ he₂
    | none =>
      obtain rfl := hm rfl
      obtain ⟨e₃, w₃, hw₃, ⟨h₃, he₃⟩, hbuf⟩ := Writer.flush_upto h₂
      exact .flush hw₁ hw₂ hw₃ h₃ he₃ fun hnone => hbuf (he₃.trans hnone)

theorem Tcp.handsFrames : HandsFrames Tcp.send := by
  intro x w pack limit handed h
  unfold Tcp.send Tcp.encode
  cases frameWrites_of_upto h pack with
  | header hw hupto he =>
    simp only [hw]
    exact ⟨_, (), _, rfl, hupto, by rw [← he]; simp, flushed_of_err he⟩
  | body hw hw' hupto he =>
    simp only [hw, hw']
    exact ⟨_, (), _, rfl, hupto, by rw [← he]; simp, flushed_of_err he⟩
  | @flush _ e _ _ _ hw hw' hflush hupto he hflushed =>
    simp only [hw, hw', ne_eq, not_true_eq_false, if_false, hflush]
    cases e with
    | none => exact ⟨none, (), _, rfl, hupto, by rw [← he], hflushed⟩
    | some e => exact ⟨_, (), _, rfl, hupto, by rw [← he]; simp, hflushed⟩

theorem Kcp.handsFrames : HandsFrames Kcp.encode := by
  intro st w pack limit handed h
  unfold Kcp.encode
  cases frameWrites_of_upto h pack with
  | header hw hupto he =>
    simp only [hw]
    exact ⟨_, _, _, rfl, hupto, by rw [← he]; simp, flushed_of_err he⟩
  | body hw hw' hupto he =>
    simp only [hw, hw']
    exact ⟨_, _, _, rfl, hupto, by rw [← he]; simp, flushed_of_err he⟩
  | @flush _ e _ _ _ hw hw' hflush hupto he hflushed =>
    simp only [hw, hw', hflush]
    cases e with
    | none => exact ⟨none, _, _, rfl, hupto, by rw [← he], hflushed⟩
    | some e => exact ⟨_, _, _, rfl, hupto, by rw [← he]; simp, hflushed⟩

/-! ## Several packs -/

/-- Several calls of `Encode`, whatever they return: the results, and the writer after them. -/
def encodeEach {κ : Type} (encode : ω → κ → Pack → Option Err × ω × κ) :
    ω → κ → List Pack → List (Option Err) × κ
  | _, w, [] => ([], w)
  | x, w, pack :: packs =>
    let (e, x', w') := encode x w pack
    let (es, w'') := encodeEach encode x' w' packs
    (e :: es, w'')

/-- The packs whose `Encode` has returned nil. -/
def acknowledged (packs : List Pack) (results : List (Option Err)) : List Pack :=
  ((packs.zip results).filter fun r => r.2 = none).map Prod.fst

theorem acknowledged_cons (pack : Pack) (packs : List Pack) (e : Option Err)
    (es : List (Option Err)) : acknowledged (pack :: packs) (e :: es) =
      if e = none then pack :: acknowledged packs es else acknowledged packs es := by
  unfold acknowledged
  rw [List.zip_cons_cons, List.filter_cons]
  by_cases he : e = none
  · simp only [he, decide_true, if_true, List.map_cons]
  · simp only [he, decide_false, Bool.false_eq_true, if_false]

/-- **The packs that are acknowledged are those whose frames fit, and what is sent is the stream up
to the limit.** -/
theorem encodeEach_spec {encode : ω → Writer → Pack → Option Err × ω × Writer}
    (henc : HandsFrames encode) (x : ω) (h : w.Upto limit handed) (hflushed : Flushed w)
    (packs : List Pack) :
    acknowledged packs (encodeEach encode x w packs).1 =
        (if handed.length ≤ limit then frameCode.fitting (limit - handed.length) packs else []) ∧
      (encodeEach encode x w packs).2.conn.sent =
        (handed ++ frameCode.encodeAll packs).take limit := by
  induction packs generalizing x w handed with
  | nil =>
    refine ⟨?_, ?_⟩
    · split <;> rfl
    · rw [show frameCode.encodeAll [] = [] from rfl, List.append_nil]
      exact sent_eq h hflushed
  | cons pack packs ih =>
    obtain ⟨e, x', w', henc', hupto, he, hflushed'⟩ := henc x w pack limit handed h
    obtain ⟨hack, hsent⟩ := ih x' hupto hflushed'
    have hiff := he.trans (err_none_iff hupto hflushed')
    simp only [encodeEach, henc']
    refine ⟨?_, ?_⟩
    · rw [acknowledged_cons, hack, StreamCode.fitting]
      show _ = if _ then (if (frame pack).length ≤ _ then
        pack :: frameCode.fitting (_ - (frame pack).length) packs else []) else []
      rw [List.length_append] at hiff ⊢
      by_cases hfits : handed.length + (frame pack).length ≤ limit
      · rw [if_pos (hiff.mpr hfits), if_pos hfits, if_pos (by omega), if_pos (by omega),
          Nat.sub_add_eq]
      · rw [if_neg (mt hiff.mp hfits), if_neg hfits]
        split
        · rw [if_neg (by omega)]
        · rfl
    · rw [hsent, StreamCode.encodeAll_cons, List.append_assoc]
      rfl

end FabricaNet.Frame

namespace FabricaNet.Internal

open Go Xnet FabricaNet.Frame Lib

variable {ω : Type}

/--
However the bytes are cut into segments, only `packs` are passed to `Decrypt`, in order and each
once. When nothing else stops the loop, all of them are.
-/
def Delivers (decode : ω → BufReader → Decoded × World × BufReader) (packs : List Pack)
    (sent : Bytes) : Prop :=
  ∀ segments eager, segments.flatten = sent → ∀ rs : List (Round ω),
    decrypted (readLoop decode rs (.new ⟨segments, errEOF, eager⟩)).2 <+: packs ∧
      ((∀ r ∈ rs, r.Quiet) →
        decrypted (readLoop decode rs (.new ⟨segments, errEOF, eager⟩)).2 = packs.take rs.length)

/-- The writer of a new codec, on a connection that breaks after `limit` bytes. -/
def newWriter (limit : Nat) (e : Err) : Writer := ⟨⟨[], some (limit, e)⟩, [], none⟩

theorem newWriter_upto (limit : Nat) (e : Err) : (newWriter limit e).Upto limit [] :=
  .live rfl ⟨limit, e, rfl, Nat.zero_add _⟩ rfl

/-- A receiver that does on a connection what it does on a stream gets the frames that fit. -/
theorem delivers_of_fitting {decode : ω → BufReader → Decoded × World × BufReader}
    {decode' : ω → Bytes → Decoded × World × Bytes} (hsame : SameDecode Buffers decode decode')
    (hdec : ReadsFrames decode') {packs : List Pack} (hlegal : ∀ p ∈ packs, Legal p)
    (limit : Nat) :
    Delivers decode (frameCode.fitting limit packs) ((frameCode.encodeAll packs).take limit) := by
  intro segments eager hsegments rs
  have hbuffers : Buffers (.new ⟨segments, errEOF, eager⟩) segments.flatten :=
    ⟨BufReader.closes_new segments eager, rfl⟩
  obtain ⟨rest, htake, hrest⟩ := StreamCode.exists_take_encodeAll frameCode_exact hlegal limit
  have hfits : ∀ p ∈ frameCode.fitting limit packs, Legal p := fun p hp =>
    hlegal p ((StreamCode.fitting_isPrefix limit packs).subset hp)
  obtain ⟨hpre, hall⟩ := readLoop_interprets hdec hfits hrest rs
  rw [sameReadLoop hsame rs hbuffers, hsegments, htake]
  exact ⟨hpre, fun hquiet => (hall hquiet).1⟩

/--
**The results of `Encode` say what the peer gets.** Whatever legal packs are encoded, one after the
other, on a TCP or KCP connection that breaks at some byte, and however the connection cuts the
bytes that it has sent into segments: the worker on the other side decrypts the packs whose `Encode`
has returned nil, in order, and no other.
-/
theorem acknowledged_delivered {packs : List Pack} (hlegal : ∀ p ∈ packs, Legal p) (limit : Nat)
    (e : Err) (st : Kcp.Stats) :
    Delivers tcpDecodeConn
        (acknowledged packs (encodeEach Tcp.send () (newWriter limit e) packs).1)
        (encodeEach Tcp.send () (newWriter limit e) packs).2.conn.sent ∧
      Delivers kcpDecodeConn
        (acknowledged packs (encodeEach Kcp.encode st (newWriter limit e) packs).1)
        (encodeEach Kcp.encode st (newWriter limit e) packs).2.conn.sent := by
  have hupto := newWriter_upto limit e
  obtain ⟨htcp, htcpSent⟩ := encodeEach_spec Tcp.handsFrames () hupto (fun _ => rfl) packs
  obtain ⟨hkcp, hkcpSent⟩ := encodeEach_spec Kcp.handsFrames st hupto (fun _ => rfl) packs
  rw [htcp, hkcp, htcpSent, hkcpSent]
  exact ⟨delivers_of_fitting tcp_sameDecode tcp_readsFrames hlegal limit,
    delivers_of_fitting kcp_sameDecode kcp_readsFrames hlegal limit⟩

/-- Three packs, and the connection breaks in the second. -/
theorem acknowledged_first_of_three :
    acknowledged [[1, 2], [3, 4, 5], [6]] (encodeEach Tcp.send ()
        (newWriter 12 errEOF) [[1, 2], [3, 4, 5], [6]]).1 = [[1, 2]] ∧
      Delivers tcpDecodeConn [[1, 2]] (encodeEach Tcp.send ()
        (newWriter 12 errEOF) [[1, 2], [3, 4, 5], [6]]).2.conn.sent := by
  have hack : acknowledged [[1, 2], [3, 4, 5], [6]] (encodeEach Tcp.send ()
      (newWriter 12 errEOF) [[1, 2], [3, 4, 5], [6]]).1 = [[1, 2]] := by decide
  refine ⟨hack, ?_⟩
  have hlegal : ∀ p ∈ [[1, 2], [3, 4, 5], [6]], Legal p := by decide
  have hdelivers := (acknowledged_delivered hlegal 12 errEOF {}).1
  rwa [hack] at hdelivers

end FabricaNet.Internal
