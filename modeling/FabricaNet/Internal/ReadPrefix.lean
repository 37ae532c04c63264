import FabricaNet.Frame.Roundtrip
import FabricaNet.Internal.ReadLoop

/-!
# What the read loop makes of a stream

The bytes that arrive after the handshake are arbitrary. `readLoop` decrypts the bodies of the
frames that the stream begins with and stops at the first that is malformed or incomplete: an error
of `Decode`, and its panic, end the loop, so that no later byte is taken for the beginning of a
frame.
-/

namespace FabricaNet.Internal

open Go Xnet FabricaNet.Frame Lib

variable {ω : Type}

/-- `Kcp.decode` on the counters and the pool. -/
def kcpDecode (x : Kcp.Stats × World) (s : Bytes) : Decoded × World × Bytes :=
  let (r, _, w, rest) := Kcp.decode x.1 x.2 s
  (r, w, rest)

/-- The worker is not stopped, and `Decrypt`, the filter and the handler succeed. -/
structure Round.Quiet (r : Round ω) : Prop where
  ctxDone_eq : r.ctxDone = false
  stopping_eq : r.stopping = false
  deadline_eq : r.deadline = none
  decrypt_ok : ∀ pack, ∃ out, r.decrypt pack = .ok out
  next_ok : ∀ out, r.next out = .ok

/--
Whatever happens, only `packs` are passed to `Decrypt`, in order and each once. When nothing else
stops the loop, all of them are, and then the loop ends.
-/
def Interprets (decode : ω → Bytes → Decoded × World × Bytes) (packs : List Pack)
    (stream : Bytes) : Prop :=
  ∀ rs : List (Round ω), decrypted (readLoop decode rs stream).2 <+: packs ∧
    ((∀ r ∈ rs, r.Quiet) →
      decrypted (readLoop decode rs stream).2 = packs.take rs.length ∧
        (packs.length < rs.length → (readLoop decode rs stream).1.isSome = true))

/-- A `Decode` that reads what `parseFrame` reads. -/
def ReadsFrames (decode : ω → Bytes → Decoded × World × Bytes) : Prop :=
  ∀ x s, (decode x s).1.received (decode x s).2.1 (decode x s).2.2 = parseFrame s

theorem tcp_readsFrames : ReadsFrames Tcp.decode := Tcp.receive_eq

theorem kcp_readsFrames : ReadsFrames kcpDecode := Kcp.receive_eq

/-! ## One round -/

section
variable {decode : ω → Bytes → Decoded × World × Bytes} (hdec : ReadsFrames decode)
include hdec

/-- Where no frame begins, nothing is decrypted and `read` fails. -/
theorem read_of_parse_none {s : Bytes} (h : parseFrame s = none) (r : Round ω) :
    decrypted (read decode r s).2.1 = [] ∧ (read decode r s).1 ≠ .ok := by
  rw [← hdec r.codec s] at h
  unfold read
  split
  · exact ⟨rfl, nofun⟩
  · split
    · exact ⟨rfl, nofun⟩
    · rcases hd : decode r.codec s with ⟨buf | e | _, w, rest⟩
      · rw [hd] at h; cases h
      · exact ⟨rfl, nofun⟩
      · exact ⟨rfl, nofun⟩

/-- Where a frame begins, its body is decrypted, unless `read` fails before it comes to that. -/
theorem read_of_parse_some {s rest : Bytes} {pack : Pack} (h : parseFrame s = some (pack, rest))
    (r : Round ω) :
    (decrypted (read decode r s).2.1 = [] ∧ (read decode r s).1 ≠ .ok) ∨
      (decrypted (read decode r s).2.1 = [pack] ∧
        ((read decode r s).1 = .ok → (read decode r s).2.2 = rest)) := by
  rw [← hdec r.codec s] at h
  unfold read
  split
  · exact Or.inl ⟨rfl, nofun⟩
  · split
    · exact Or.inl ⟨rfl, nofun⟩
    · rcases hd : decode r.codec s with ⟨buf | e | _, w, rest'⟩ <;> rw [hd] at h
      · obtain ⟨rfl, rfl⟩ := Prod.mk.inj (Option.some.inj h)
        right
        simp only
        split
        · exact ⟨rfl, fun _ => rfl⟩
        · exact ⟨rfl, fun _ => rfl⟩
      · cases h
      · cases h

theorem read_of_quiet {s rest : Bytes} {pack : Pack} (h : parseFrame s = some (pack, rest))
    {r : Round ω} (hr : r.Quiet) :
    decrypted (read decode r s).2.1 = [pack] ∧ (read decode r s).1 = .ok ∧
      (read decode r s).2.2 = rest := by
  rw [← hdec r.codec s] at h
  unfold read
  simp only [hr.stopping_eq, hr.deadline_eq, Bool.false_eq_true, if_false]
  rcases hd : decode r.codec s with ⟨buf | e | _, w, rest'⟩ <;> rw [hd] at h
  · obtain ⟨rfl, rfl⟩ := Prod.mk.inj (Option.some.inj h)
    obtain ⟨out, hout⟩ := hr.decrypt_ok (w.heap.read buf)
    simp [hout, hr.next_ok, decrypted]
  · cases h
  · cases h

/-! ## The loop -/

omit hdec in
/-- A loop goes on after a round that succeeds, and ends otherwise. -/
theorem readLoop_cons (r : Round ω) (rs : List (Round ω)) (s : Bytes) (hctx : r.ctxDone = false) :
    readLoop decode (r :: rs) s =
      if (read decode r s).1 = .ok then
        ((readLoop decode rs (read decode r s).2.2).1,
          (read decode r s).2.1 ++ (readLoop decode rs (read decode r s).2.2).2)
      else (some (read decode r s).1, (read decode r s).2.1) := by
  rw [readLoop, hctx]
  simp only [Bool.false_eq_true, if_false]
  rcases read decode r s with ⟨_ | e | _, events, rest⟩ <;> rfl

theorem readLoop_interprets {packs : List Pack} {rest : Bytes} (hlegal : ∀ p ∈ packs, Legal p)
    (hrest : parseFrame rest = none) :
    Interprets decode packs (frameCode.encodeAll packs ++ rest) := by
  intro rs
  induction rs generalizing packs with
  | nil =>
    refine ⟨List.nil_prefix, fun _ => ⟨?_, fun hlt => absurd hlt (Nat.not_lt_zero _)⟩⟩
    rw [List.length_nil, List.take_zero]
    rfl
  | cons r rs ih =>
    cases hctx : r.ctxDone with
    | true =>
      have hloop : ∀ s, readLoop decode (r :: rs) s = (some (.err errContext), []) := fun s => by
        rw [readLoop, hctx]; rfl
      rw [hloop]
      refine ⟨List.nil_prefix, fun hq => ?_⟩
      exact absurd ((hq r List.mem_cons_self).ctxDone_eq.symm.trans hctx) (by decide)
    | false =>
      rw [readLoop_cons r rs _ hctx]
      cases packs with
      | nil =>
        obtain ⟨hnone, hfail⟩ := read_of_parse_none hdec hrest r
        rw [show frameCode.encodeAll [] ++ rest = rest from rfl, if_neg hfail]
        refine ⟨by rw [hnone], fun _ => ⟨by rw [hnone, List.take_nil], fun _ => rfl⟩⟩
      | cons p ps =>
        have hparse : parseFrame (frameCode.encodeAll (p :: ps) ++ rest) =
            some (p, frameCode.encodeAll ps ++ rest) := by
          rw [StreamCode.encodeAll_cons, List.append_assoc]
          exact parseFrame_frame p _ (hlegal p List.mem_cons_self)
        have ih' := ih fun q hq => hlegal q (List.mem_cons_of_mem p hq)
        constructor
        · rcases read_of_parse_some hdec hparse r with ⟨hnone, hfail⟩ | ⟨hone, hleft⟩
          · rw [if_neg hfail, hnone]
            exact List.nil_prefix
          · split
            · next hok =>
              rw [hleft hok, decrypted_append, hone]
              exact List.cons_prefix_cons.mpr ⟨rfl, ih'.1⟩
            · rw [hone]
              exact List.cons_prefix_cons.mpr ⟨rfl, List.nil_prefix⟩
        · intro hq
          obtain ⟨hone, hok, hleft⟩ := read_of_quiet hdec hparse (hq r List.mem_cons_self)
          obtain ⟨hall, hends⟩ := ih'.2 fun r' hr' => hq r' (List.mem_cons_of_mem r hr')
          rw [if_pos hok, hleft, decrypted_append, hone, hall]
          exact ⟨rfl, fun hlt => hends (Nat.lt_of_succ_lt_succ hlt)⟩

end

/--
**The read loop of a TCP or KCP connection decrypts exactly the bodies of the longest prefix of the
stream that consists of frames, and then ends.**
-/
theorem readLoop_longest_prefix (stream : Bytes) :
    ∃ packs, frameCode.LongestPrefix packs stream ∧ Interprets Tcp.decode packs stream ∧
      Interprets kcpDecode packs stream := by
  obtain ⟨packs, rest, rfl, hrest, hlongest⟩ :=
    StreamCode.exists_longestPrefix frameCode_exact stream
  exact ⟨packs, hlongest, readLoop_interprets tcp_readsFrames hlongest.legal hrest,
    readLoop_interprets kcp_readsFrames hlongest.legal hrest⟩

/-- A frame, a negative length, and what looks like a frame behind it. -/
example : decrypted (readLoop Tcp.decode
    (List.replicate 3 { codec := World.bare, decrypt := .ok, next := fun _ => .ok })
    [0, 0, 0, 1, 7, 255, 255, 255, 255, 0, 0, 0, 1, 8]).2 = [[7]] := by decide +kernel

end FabricaNet.Internal
