import FabricaNet.Frame.Roundtrip

/-!
# Frames with a short body

`Decode` once more, with its named results and its deferred function written out, and with a record
of the calls that it makes on the pool. A `return` statement assigns the named results, then the
deferred function runs.

From the allocation on, the deferred function is there to free the buffer when there is an error. It
calls the result `free`. But every `return` with an error is `return nil, nil, err`, which has set
`free` to nil. So an error after the allocation never comes back to the caller, and the buffer is
not freed (`cleanDecode_iff`).

A stream ends with the bytes it has given, or it is broken: then `io.ReadFull` returns the error of
the connection.
-/

namespace FabricaNet.Frame

open Go Xnet Ringpool

/-- The named results of `Decode`. The function `free` is given by the buffer that it frees. -/
structure Results where
  pack : Option Slice
  free : Option Slice
  err : Option Err
deriving DecidableEq, Repr

/-- `return nil, nil, err`. -/
def Results.error (e : Err) : Results := { pack := none, free := none, err := some e }

/-- `return xnet.Pack(buf), free, nil`. -/
def Results.ok (buf : Slice) : Results := { pack := some buf, free := some buf, err := none }

/-- How a call of `Decode` ends for its caller. -/
inductive Exit where
  | returned (r : Results)
  | panicked
deriving DecidableEq, Repr

/-- A call on the pool, with the buffer it returns or is given. -/
inductive PoolCall where
  | alloc (buf : Slice)
  | free (buf : Slice)
deriving DecidableEq, Repr

/-- The pool and the heap, with the calls on the pool so far. -/
structure Traced where
  world : World
  calls : List PoolCall

namespace Traced

/-- `pool.Alloc(n)`. -/
def alloc (t : Traced) (n : Int) : Slice × Traced :=
  let (buf, pool, heap) := t.world.pool.alloc t.world.heap n
  (buf, { world := { pool := pool, heap := heap }, calls := t.calls ++ [.alloc buf] })

/-- `pool.Free(buf)`. -/
def free (t : Traced) (buf : Slice) : Traced :=
  let (pool, heap) := t.world.pool.free t.world.heap buf
  { world := { pool := pool, heap := heap }, calls := t.calls ++ [.free buf] }

/-- `copy(buf, bytes)`. -/
def write (t : Traced) (buf : Slice) (bytes : Bytes) : Traced :=
  { t with world := { t.world with heap := t.world.heap.write buf bytes } }

end Traced

/-- `io.ReadFull` on a stream that ends with `s`, or that is broken after it. -/
def readFullUntil (broken : Option Err) (n : Nat) (s : Bytes) : Option Err × Bytes × Bytes :=
  match readFull n s with
  | (none, bytes, rest) => (none, bytes, rest)
  | (some e, bytes, rest) => (some (broken.getD e), bytes, rest)

/-- `io.ReadFull(r, buf)`: the error, the number of bytes, the pool and the heap, the bytes left. -/
def Traced.readInto (t : Traced) (broken : Option Err) (buf : Slice) (s : Bytes) :
    Option Err × Nat × Traced × Bytes :=
  let (e, bytes, rest) := readFullUntil broken buf.len s
  (e, bytes.length, t.write buf bytes, rest)

/-- `free()`; a nil `free` panics. -/
def callFree (r : Results) (t : Traced) : Exit × Traced :=
  match r.free with
  | none => (.panicked, t)
  | some buf => (.returned r, t.free buf)

/-- The deferred function, on the results that the `return` statement has assigned. -/
def deferred (r : Results) (t : Traced) : Exit × Traced :=
  match r.err with
  | none => (.returned r, t)
  | some _ => callFree r t

/-- `Decode` of TCP and WebSocket from the length header on. -/
def decodePackNamed (errInvalidPackLen errShortRead : Err) (broken : Option Err) (t : Traced)
    (s : Bytes) : Exit × Traced × Bytes :=
  match readFullUntil broken 4 s with
  | (some e, _, rest) => (.returned (.error (.wrap e "read pack len failed")), t, rest)
  | (none, header, rest) =>
    let packLen := int32 header
    if badPackLen packLen then (.returned (.error errInvalidPackLen), t, rest)
    else
      let (buf, t) := t.alloc packLen.toInt
      match t.readInto broken buf rest with
      | (some e, _, t, rest) =>
        let (exit, t) := deferred (.error (.wrap e "read pack failed")) t
        (exit, t, rest)
      | (none, n, t, rest) =>
        let (exit, t) :=
          deferred (if (n : Int) < packLen.toInt then .error errShortRead else .ok buf) t
        (exit, t, rest)

namespace Tcp

def errShortRead : Err := .sentinel "short read"

/-- `Codec.Decode`. -/
def decodeNamed (broken : Option Err) (t : Traced) (s : Bytes) : Exit × Traced × Bytes :=
  decodePackNamed errInvalidPackLen errShortRead broken t s

end Tcp

namespace Kcp

/-- The deferred function of `kcpCodec.Decode`. -/
def deferredCount (r : Results) (st : Stats) (t : Traced) : Exit × Stats × Traced :=
  match r.err with
  | none => (.returned r, st, t)
  | some _ =>
    let (exit, t) := callFree r t
    (exit, st.decodeError, t)

/-- `kcpCodec.Decode`. -/
def decodeNamed (broken : Option Err) (st : Stats) (t : Traced) (s : Bytes) :
    Exit × Stats × Traced × Bytes :=
  let st := { st with totalDecodes := st.totalDecodes + 1 }
  match readFullUntil broken 4 s with
  | (some e, _, rest) =>
    (.returned (.error (.wrap e "read length failed")), st.decodeError, t, rest)
  | (none, header, rest) =>
    let length := int32 header
    if badPackLen length then
      (.returned (.error (.new ("invalid pack length: " ++ toString length.toInt))),
        st.decodeError, t, rest)
    else
      let st := { st with totalBytesIn := st.totalBytesIn + length.toInt64.toUInt64 }
      let (buf, t) := t.alloc length.toInt
      let st :=
        if (buf.cap : Int) = length.toInt then { st with poolHits := st.poolHits + 1 }
        else { st with poolMisses := st.poolMisses + 1 }
      match t.readInto broken buf rest with
      | (some e, _, t, rest) =>
        let (exit, st, t) := deferredCount (.error (.wrap e "read data failed")) st t
        (exit, st, t, rest)
      | (none, _, t, rest) =>
        let (exit, st, t) := deferredCount (.ok buf) st t
        (exit, st, t, rest)

end Kcp

namespace WebSocket

def errShortRead : Err := .sentinel "short read"

/-- `Codec.Decode`. `broken` is the error in the middle of a message, if there is one. -/
def decodeNamed {ρ : Type} (r : MessageReceiver ρ) (broken : Option Err) (t : Traced) (c : ρ) :
    Exit × Traced × ρ :=
  match r.nextReader c with
  | (.error e, c) =>
    if r.isUnexpectedCloseError e then
      (.returned (.error (.wrap e "unexpected close error")), t, c)
    else (.returned (.error (.wrap e "connection closed")), t, c)
  | (.ok (mt, message), c) =>
    if mt ≠ messageType then (.returned (.error errInvalidFrameType), t, c)
    else
      let (exit, t, _) := decodePackNamed errInvalidPackLen errShortRead broken t message
      (exit, t, c)

end WebSocket

/-! ## The same `Decode` -/

/-- What the caller sees of a call, in the terms of `FabricaNet/Frame/Codec.lean`. -/
inductive Exit.Shows : Exit → Decoded → Prop
  | ok (buf : Slice) : Shows (.returned (.ok buf)) (.ok buf)
  | err (e : Err) : Shows (.returned (.error e)) (.err e)
  | panic : Shows .panicked .panic

theorem readFullUntil_none (n : Nat) (s : Bytes) : readFullUntil none n s = readFull n s := by
  unfold readFullUntil
  split
  · next h => exact h.symm
  · next h => exact h.symm

theorem Traced.readInto_none (t : Traced) (buf : Slice) (s : Bytes) :
    t.readInto none buf s =
      ((Frame.readInto t.world buf s).1, (Frame.readInto t.world buf s).2.1,
        { t with world := (Frame.readInto t.world buf s).2.2.1 },
        (Frame.readInto t.world buf s).2.2.2) := by
  simp only [readInto, Frame.readInto, readFullUntil_none, write]

/-- The call with its named results written out is the call: its end, the pool, and the rest. -/
structure Shows {ρ : Type} (exit : Exit) (t : Traced) (rest : ρ) (d : Decoded) (w : World)
    (rest' : ρ) : Prop where
  exit : exit.Shows d
  world : t.world = w
  rest : rest = rest'

theorem decodePackNamed_shows (e e' : Err) (t : Traced) (s : Bytes) :
    Shows (decodePackNamed e e' none t s).1 (decodePackNamed e e' none t s).2.1
      (decodePackNamed e e' none t s).2.2 (decodePack e t.world s).1 (decodePack e t.world s).2.1
      (decodePack e t.world s).2.2 := by
  unfold decodePackNamed decodePack
  rw [readFullUntil_none]
  rcases readFull 4 s with ⟨_ | err, header, rest⟩
  · cases hbad : badPackLen (int32 header) with
    | true =>
      simp only [hbad, if_true]
      exact ⟨.err _, rfl, rfl⟩
    | false =>
      simp only [hbad, Bool.false_eq_true, if_false, Traced.readInto_none, Traced.alloc]
      rcases Frame.readInto _ _ rest with ⟨_ | err, n, w', rest'⟩
      · simp only
        split
        · exact ⟨.panic, rfl, rfl⟩
        · exact ⟨.ok _, rfl, rfl⟩
      · exact ⟨.panic, rfl, rfl⟩
  · exact ⟨.err _, rfl, rfl⟩

theorem Kcp.decodeNamed_shows (st : Stats) (t : Traced) (s : Bytes) :
    Shows (decodeNamed none st t s).1 (decodeNamed none st t s).2.2.1
      ((decodeNamed none st t s).2.1, (decodeNamed none st t s).2.2.2) (decode st t.world s).1
      (decode st t.world s).2.2.1 ((decode st t.world s).2.1, (decode st t.world s).2.2.2) := by
  unfold decodeNamed decode
  rw [readFullUntil_none]
  rcases readFull 4 s with ⟨_ | err, header, rest⟩
  · cases hbad : badPackLen (int32 header) with
    | true =>
      simp only [hbad, if_true]
      exact ⟨.err _, rfl, rfl⟩
    | false =>
      simp only [hbad, Bool.false_eq_true, if_false, Traced.readInto_none, Traced.alloc]
      rcases Frame.readInto _ _ rest with ⟨_ | err, n, w', rest'⟩
      · exact ⟨.ok _, rfl, rfl⟩
      · exact ⟨.panic, rfl, rfl⟩
  · exact ⟨.err _, rfl, rfl⟩

theorem WebSocket.decodeNamed_shows {ρ : Type} (r : MessageReceiver ρ) (t : Traced) (c : ρ) :
    Shows (decodeNamed r none t c).1 (decodeNamed r none t c).2.1 (decodeNamed r none t c).2.2
      (decode r t.world c).1 (decode r t.world c).2.1 (decode r t.world c).2.2 := by
  unfold decodeNamed decode
  rcases r.nextReader c with ⟨e | ⟨mt, message⟩, c'⟩
  · dsimp only
    split <;> exact ⟨.err _, rfl, rfl⟩
  · by_cases hmt : mt ≠ messageType
    · simp only [if_pos hmt]
      exact ⟨.err _, rfl, rfl⟩
    · simp only [if_neg hmt]
      have h := decodePackNamed_shows errInvalidPackLen errShortRead t message
      exact ⟨h.exit, h.world, rfl⟩

/-! ## The three ways to end -/

/-- A valid length header, and fewer bytes than it says. -/
def Truncated (s : Bytes) : Prop :=
  4 ≤ s.length ∧ badPackLen (int32 (s.take 4)) = false ∧
    (s.drop 4).length < (int32 (s.take 4)).toInt.toNat

instance (s : Bytes) : Decidable (Truncated s) := instDecidableAnd

/-- How `Decode` ends, with the calls it has added. -/
inductive Ends (short : Prop) (calls : List PoolCall) : Exit → List PoolCall → Prop
  /-- an error before the allocation -/
  | refused (e : Err) (long : ¬short) : Ends short calls (.returned (.error e)) calls
  | pack (buf : Slice) (long : ¬short) :
      Ends short calls (.returned (.ok buf)) (calls ++ [.alloc buf])
  /-- the deferred function calls a nil `free` -/
  | lost (buf : Slice) (body : short) : Ends short calls .panicked (calls ++ [.alloc buf])

theorem readFullUntil_of_le (broken : Option Err) {n : Nat} {s : Bytes} (h : n ≤ s.length) :
    readFullUntil broken n s = (none, s.take n, s.drop n) := by
  simp only [readFullUntil, readFull, if_pos h]

theorem readFullUntil_of_lt (broken : Option Err) {n : Nat} {s : Bytes} (h : s.length < n) :
    ∃ e, readFullUntil broken n s = (some e, s, []) := by
  simp only [readFullUntil, readFull, if_neg (Nat.not_le.mpr h)]
  exact ⟨_, rfl⟩

section ReadInto

variable (t : Traced) (broken : Option Err) {n : Int} {s : Bytes}

theorem Traced.alloc_len (n : Int) : (t.alloc n).1.len = n.toNat :=
  t.world.pool.alloc_len t.world.heap n

theorem Traced.readInto_of_le (h : n.toNat ≤ s.length) :
    (t.alloc n).2.readInto broken (t.alloc n).1 s =
      (none, n.toNat, (t.alloc n).2.write (t.alloc n).1 (s.take n.toNat), s.drop n.toNat) := by
  simp only [readInto, alloc_len, readFullUntil_of_le broken h, List.length_take_of_le h]

theorem Traced.readInto_of_lt (h : s.length < n.toNat) :
    ∃ e, (t.alloc n).2.readInto broken (t.alloc n).1 s =
      (some e, s.length, (t.alloc n).2.write (t.alloc n).1 s, []) := by
  obtain ⟨e, hread⟩ := readFullUntil_of_lt broken h
  refine ⟨e, ?_⟩
  simp only [readInto, alloc_len, hread]

end ReadInto

/-- The four kinds of input. -/
inductive Input (s : Bytes) : Prop where
  | noHeader (lt : s.length < 4) (long : ¬Truncated s)
  | badHeader (le : 4 ≤ s.length) (bad : badPackLen (int32 (s.take 4)) = true) (long : ¬Truncated s)
  | shortBody (le : 4 ≤ s.length) (good : badPackLen (int32 (s.take 4)) = false)
      (lt : (s.drop 4).length < (int32 (s.take 4)).toInt.toNat) (short : Truncated s)
  | wholeBody (le : 4 ≤ s.length) (good : badPackLen (int32 (s.take 4)) = false)
      (whole : (int32 (s.take 4)).toInt.toNat ≤ (s.drop 4).length) (long : ¬Truncated s)

theorem input (s : Bytes) : Input s := by
  rcases Nat.lt_or_ge s.length 4 with hlt | hle
  · exact .noHeader hlt fun h => absurd h.1 (Nat.not_le.mpr hlt)
  · cases hbad : badPackLen (int32 (s.take 4)) with
    | true =>
      refine .badHeader hle hbad fun h => ?_
      rw [h.2.1] at hbad
      cases hbad
    | false =>
      rcases Nat.lt_or_ge (s.drop 4).length (int32 (s.take 4)).toInt.toNat with hshort | hwhole
      · exact .shortBody hle hbad hshort ⟨hle, hbad, hshort⟩
      · exact .wholeBody hle hbad hwhole fun h => absurd h.2.2 (Nat.not_lt.mpr hwhole)

theorem decodePackNamed_ends (e e' : Err) (broken : Option Err) (t : Traced) (s : Bytes) :
    Ends (Truncated s) t.calls (decodePackNamed e e' broken t s).1
      (decodePackNamed e e' broken t s).2.1.calls := by
  unfold decodePackNamed
  cases input s with
  | noHeader lt long =>
    obtain ⟨err, hread⟩ := readFullUntil_of_lt broken lt
    simp only [hread]
    exact .refused _ long
  | badHeader le bad long =>
    simp only [readFullUntil_of_le broken le, bad, if_true]
    exact .refused e long
  | shortBody le good lt short =>
    obtain ⟨err, hread⟩ := t.readInto_of_lt broken lt
    simp only [readFullUntil_of_le broken le, good, Bool.false_eq_true, if_false, hread]
    exact .lost _ short
  | wholeBody le good whole long =>
    have hn : ¬((int32 (s.take 4)).toInt.toNat : Int) < (int32 (s.take 4)).toInt := by omega
    simp only [readFullUntil_of_le broken le, good, Bool.false_eq_true, if_false,
      t.readInto_of_le broken whole, if_neg hn]
    exact .pack _ long

theorem Kcp.decodeNamed_ends (broken : Option Err) (st : Stats) (t : Traced) (s : Bytes) :
    Ends (Truncated s) t.calls (decodeNamed broken st t s).1
      (decodeNamed broken st t s).2.2.1.calls := by
  unfold decodeNamed
  cases input s with
  | noHeader lt long =>
    obtain ⟨err, hread⟩ := readFullUntil_of_lt broken lt
    simp only [hread]
    exact .refused _ long
  | badHeader le bad long =>
    simp only [readFullUntil_of_le broken le, bad, if_true]
    exact .refused _ long
  | shortBody le good lt short =>
    obtain ⟨err, hread⟩ := t.readInto_of_lt broken lt
    simp only [readFullUntil_of_le broken le, good, Bool.false_eq_true, if_false, hread]
    exact .lost _ short
  | wholeBody le good whole long =>
    simp only [readFullUntil_of_le broken le, good, Bool.false_eq_true, if_false,
      t.readInto_of_le broken whole]
    exact .pack _ long

/-- The message that the next `Decode` reads is a frame with a short body. -/
def WebSocket.Truncated {ρ : Type} (r : MessageReceiver ρ) (c : ρ) : Prop :=
  ∃ message c', r.nextReader c = (.ok (messageType, message), c') ∧ Frame.Truncated message

theorem WebSocket.decodeNamed_ends {ρ : Type} (r : MessageReceiver ρ) (broken : Option Err)
    (t : Traced) (c : ρ) : Ends (WebSocket.Truncated r c) t.calls (decodeNamed r broken t c).1
      (decodeNamed r broken t c).2.1.calls := by
  unfold decodeNamed
  split
  · next hnext =>
    have hlong : ¬WebSocket.Truncated r c := by
      rintro ⟨message, c', hc, -⟩
      rw [hnext] at hc
      cases hc
    split <;> exact .refused _ hlong
  · next mt message c' hnext =>
    have hiff : WebSocket.Truncated r c ↔ mt = messageType ∧ Frame.Truncated message := by
      constructor
      · rintro ⟨message', rest', hc, hs⟩
        cases hnext.symm.trans hc
        exact ⟨rfl, hs⟩
      · rintro ⟨rfl, hs⟩
        exact ⟨message, c', hnext, hs⟩
    by_cases hmt : mt = messageType
    · rw [if_neg (not_not.mpr hmt), propext (hiff.trans (and_iff_right hmt))]
      exact decodePackNamed_ends ..
    · rw [if_pos hmt]
      exact .refused _ fun h => hmt (hiff.mp h).1

/-! ## Clean errors -/

/--
The call returns, with an error if the body is short; and when it returns an error, each buffer was
freed as often as it was allocated.
-/
def CleanDecode (short : Prop) (exit : Exit) (calls : List PoolCall) : Prop :=
  ∃ r, exit = .returned r ∧ (short → r.err ≠ none) ∧
    (r.err ≠ none → ∀ buf, calls.count (.alloc buf) = calls.count (.free buf))

theorem Ends.clean_iff {short : Prop} {exit : Exit} {calls : List PoolCall}
    (h : Ends short [] exit calls) : CleanDecode short exit calls ↔ ¬short := by
  cases h with
  | refused e long =>
    exact iff_of_true ⟨_, rfl, fun _ => nofun, fun _ _ => rfl⟩ long
  | pack buf long =>
    exact iff_of_true ⟨_, rfl, fun h => absurd h long, fun h => absurd rfl h⟩ long
  | lost buf body =>
    refine iff_of_false ?_ fun long => long body
    rintro ⟨r, hr, -⟩
    cases hr

/--
**The error path of `Decode` is clean exactly for the inputs that are no frame with a short body, in
all three codecs.**
-/
theorem cleanDecode_iff {ρ : Type} (r : MessageReceiver ρ) (w : World) (broken : Option Err) :
    (∀ s, CleanDecode (Truncated s) (Tcp.decodeNamed broken ⟨w, []⟩ s).1
        (Tcp.decodeNamed broken ⟨w, []⟩ s).2.1.calls ↔ ¬Truncated s) ∧
      (∀ st s, CleanDecode (Truncated s) (Kcp.decodeNamed broken st ⟨w, []⟩ s).1
        (Kcp.decodeNamed broken st ⟨w, []⟩ s).2.2.1.calls ↔ ¬Truncated s) ∧
      ∀ c, CleanDecode (WebSocket.Truncated r c) (WebSocket.decodeNamed r broken ⟨w, []⟩ c).1
        (WebSocket.decodeNamed r broken ⟨w, []⟩ c).2.1.calls ↔ ¬WebSocket.Truncated r c := by
  refine ⟨fun s => ?_, fun st s => ?_, fun c => ?_⟩
  · exact (decodePackNamed_ends _ _ broken ⟨w, []⟩ s).clean_iff
  · exact (Kcp.decodeNamed_ends broken st ⟨w, []⟩ s).clean_iff
  · exact (WebSocket.decodeNamed_ends r broken ⟨w, []⟩ c).clean_iff

/-- A header for two bytes, and one byte: the call panics, and its buffer is not freed. -/
theorem short_body_panics :
    ((Tcp.decodeNamed none ⟨World.bare, []⟩ [0, 0, 0, 2, 7]).1 = .panicked ∧
        (Tcp.decodeNamed none ⟨World.bare, []⟩ [0, 0, 0, 2, 7]).2.1.calls =
          [.alloc { ptr := 0, len := 2, cap := 2 }]) ∧
      (Kcp.decodeNamed none {} ⟨World.bare, []⟩ [0, 0, 0, 2, 7]).1 = .panicked ∧
      (WebSocket.decodeNamed plainReceiver none ⟨World.bare, []⟩ [(2, [0, 0, 0, 2, 7])]).1 =
        .panicked ∧
      ¬CleanDecode (Truncated [0, 0, 0, 2, 7])
        (Tcp.decodeNamed none ⟨World.bare, []⟩ [0, 0, 0, 2, 7]).1
        (Tcp.decodeNamed none ⟨World.bare, []⟩ [0, 0, 0, 2, 7]).2.1.calls := by
  refine ⟨⟨rfl, rfl⟩, rfl, rfl, ?_⟩
  rintro ⟨r, hr, -⟩
  cases hr

end FabricaNet.Frame
