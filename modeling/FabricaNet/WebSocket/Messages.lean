import FabricaNet.Internal.Acknowledged

/-!
# What the loops make of WebSocket messages

`Encode` and `Decode` of `websocket/frame/codec.go` under the read loop of a worker. A message
either is complete when `Encode` has returned nil, or breaks the connection, and then the peer may
get a beginning of it. `Decode` takes a pack from each complete message. On the beginning of one it
returns an error or panics, unless the beginning is the whole message. So what arrives is what was
acknowledged and at most one pack more, and then the loop ends. (The reader of a beginning ends with
the error of the connection where the one of a message ends with `io.EOF`. `Decode` wraps either.)

* `encodeEach_cut` — what goes out for the packs, and which of them are acknowledged
* `readLoop_messages` — what the loop takes from messages of any kind
* `webSocket_acknowledged_delivered` — both ends together
-/

namespace FabricaNet.Frame.WebSocket

open Go Xnet Lib

/-- The pack that `Decode` takes from a message. -/
def parseMessage (m : Message) : Option Pack :=
  if m.1 = messageType then (parseFrame m.2).map Prod.fst else none

/-- The packs of the messages before the first that `Decode` refuses. -/
def leadingPacks : List Message → List Pack
  | [] => []
  | m :: ms =>
    match parseMessage m with
    | some pack => pack :: leadingPacks ms
    | none => []

section
variable {ρ : Type} {r : MessageReceiver ρ} {c : ρ}

theorem receive_nil (w : World) (h : r.messages c = []) : receive r w c = none := by
  obtain ⟨e, c', hnext, -⟩ := r.nextReader_nil c h
  simp only [receive, decode, hnext]
  split <;> rfl

/-- `Decode` reads one message, whatever its type is. -/
theorem receive_next (w : World) {m : Message} {c' : ρ} (hnext : r.nextReader c = (.ok m, c')) :
    receive r w c = (parseMessage m).map fun pack => (pack, c') := by
  obtain ⟨mt, message⟩ := m
  by_cases hmt : mt = messageType
  · subst hmt
    rw [receive_eq w hnext, parseMessage, if_pos rfl, Option.map_map]
    rfl
  · simp only [receive, decode, hnext, ne_eq, hmt, not_false_eq_true, if_true, Decoded.received,
      parseMessage, if_false, Option.map_none]

end

theorem parseMessage_frame {p : Pack} (hlegal : Legal p) :
    parseMessage (messageType, frame p) = some p := by
  have hframe := parseFrame_frame p [] hlegal
  rw [List.append_nil] at hframe
  rw [parseMessage, if_pos rfl, hframe]
  rfl

/-- From a beginning of a message `Decode` takes the pack of the message or none. -/
theorem parseMessage_beginning {p : Pack} (hlegal : Legal p) {b : Bytes} (hb : b <+: frame p) :
    parseMessage (messageType, b) = none ∨ parseMessage (messageType, b) = some p := by
  rw [parseMessage, if_pos rfl]
  cases hparse : parseFrame b with
  | none => exact .inl rfl
  | some x =>
    obtain ⟨q, tail⟩ := x
    obtain ⟨hq, hsplit⟩ := frameCode_exact b q tail hparse
    obtain ⟨t, ht⟩ := hb
    -- the frame of `p` begins with the one of `q`, and so is read as `q`
    have hreadp := parseFrame_frame p [] hlegal
    have hreadq := parseFrame_frame q (tail ++ t) hq
    have hsplit' : b = frame q ++ tail := hsplit
    rw [List.append_nil] at hreadp
    rw [← List.append_assoc, ← hsplit', ht, hreadp] at hreadq
    have hpq : p = q := (Prod.mk.inj (Option.some.inj hreadq)).1
    exact .inr (by rw [hpq]; rfl)

theorem leadingPacks_framed_append {packs : List Pack} (hlegal : ∀ p ∈ packs, Legal p)
    (ms : List Message) : leadingPacks (framed packs ++ ms) = packs ++ leadingPacks ms := by
  induction packs with
  | nil => rfl
  | cons p ps ih =>
    rw [framed, List.map_cons, List.cons_append, leadingPacks,
      parseMessage_frame (hlegal p List.mem_cons_self)]
    exact congrArg (p :: ·) (ih fun q hq => hlegal q (List.mem_cons_of_mem p hq))

/-! ## A connection that breaks -/

section
variable {κ μ : Type} (g : MessageSender κ μ)

/-- `encode` in the form in which several calls are made. -/
def send (_ : Unit) (c : κ) (pack : Pack) : Option Err × Unit × κ :=
  let (e, c') := encode g c pack
  (e, (), c')

variable {g}

theorem encode_broken {c : κ} (h : (g.wire c).broken = true) (pack : Pack) :
    ∃ e c', encode g c pack = (some e, c') ∧ g.wire c' = g.wire c := by
  obtain ⟨e, c', hnext, hwire⟩ := g.nextWriter_broken c h
  exact ⟨_, c', by rw [encode, messageType, hnext], hwire⟩

/-- On a broken connection nothing is acknowledged, and nothing goes out. -/
theorem encodeEach_broken {c : κ} (h : (g.wire c).broken = true) (packs : List Pack) :
    acknowledged packs (encodeEach (send g) () c packs).1 = [] ∧
      g.wire (encodeEach (send g) () c packs).2 = g.wire c := by
  induction packs generalizing c with
  | nil => exact ⟨rfl, rfl⟩
  | cons pack packs ih =>
    obtain ⟨e, c', hencode, hwire⟩ := encode_broken h pack
    obtain ⟨hack, hrest⟩ := ih (c := c') (by rw [hwire]; exact h)
    simp only [encodeEach, send, hencode]
    rw [acknowledged_cons, if_neg (Option.some_ne_none e)]
    exact ⟨hack, hrest.trans hwire⟩

/-- The messages of the first `k` packs have gone out, and of the next one a beginning at most. -/
structure Cut (o : Wire) (packs : List Pack) (k : Nat) (o' : Wire) : Prop where
  sent : o'.sent = o.sent ++ framed (packs.take k)
  torn : o'.torn = o.torn ∨
    ∃ p b, packs[k]? = some p ∧ b <+: frame p ∧ o'.torn = some (messageType, b)

theorem cut_of_breaks {o o' : Wire} {pack : Pack} (packs : List Pack)
    (h : o.Breaks (messageType, frame pack) o') : Cut o (pack :: packs) 0 o' := by
  cases h with
  | nothing => exact ⟨(List.append_nil _).symm, .inl rfl⟩
  | beginning hb => exact ⟨(List.append_nil _).symm, .inr ⟨pack, _, rfl, hb, rfl⟩⟩

theorem Cut.cons {o o' : Wire} {pack : Pack} {packs : List Pack} {k : Nat}
    (h : Cut (o.push (messageType, frame pack)) packs k o') : Cut o (pack :: packs) (k + 1) o' :=
  ⟨h.sent.trans (List.append_assoc ..), h.torn⟩

/-- **The packs before the first whose `Encode` fails are acknowledged and sent.** -/
theorem encodeEach_cut (c : κ) (packs : List Pack) :
    ∃ k, acknowledged packs (encodeEach (send g) () c packs).1 = packs.take k ∧
      Cut (g.wire c) packs k (g.wire (encodeEach (send g) () c packs).2) := by
  induction packs generalizing c with
  | nil => exact ⟨0, rfl, (List.append_nil _).symm, .inl rfl⟩
  | cons pack packs ih =>
    rcases encode_cases g c pack with ⟨c', hencode, -, hwire⟩ | ⟨-, e, c', hencode, hbreaks⟩
    · obtain ⟨k, hack, hcut⟩ := ih c'
      rw [hwire] at hcut
      refine ⟨k + 1, ?_, ?_⟩ <;> simp only [encodeEach, send, hencode]
      · rw [acknowledged_cons, if_pos rfl]
        exact congrArg (pack :: ·) hack
      · exact hcut.cons
    · obtain ⟨hack, hrest⟩ := encodeEach_broken hbreaks.broken packs
      refine ⟨0, ?_, ?_⟩ <;> simp only [encodeEach, send, hencode]
      · rw [acknowledged_cons, if_neg (Option.some_ne_none e)]
        exact hack
      · rw [hrest]
        exact cut_of_breaks packs hbreaks

end

/-- The packs that the peer takes from what has gone out. -/
theorem Cut.leadingPacks_arrives {packs : List Pack} (hlegal : ∀ p ∈ packs, Legal p) {k : Nat}
    {o : Wire} (h : Cut .empty packs k o) :
    ∃ j, (j = k ∨ j = k + 1) ∧ leadingPacks o.arrives = packs.take j := by
  have htake : ∀ p ∈ packs.take k, Legal p := fun p hp => hlegal p (List.mem_of_mem_take hp)
  have hsent : o.sent = framed (packs.take k) := h.sent
  rw [Wire.arrives, hsent, leadingPacks_framed_append htake]
  rcases h.torn with htorn | ⟨p, b, hp, hb, htorn⟩
  · exact ⟨k, .inl rfl, by rw [htorn]; exact List.append_nil _⟩
  · rw [htorn, Option.toList_some, leadingPacks]
    rcases parseMessage_beginning (hlegal p (List.mem_of_getElem? hp)) hb with hnone | hsome
    · exact ⟨k, .inl rfl, by rw [hnone]; exact List.append_nil _⟩
    · refine ⟨k + 1, .inr rfl, ?_⟩
      rw [hsome, List.take_add_one, hp]
      rfl

end FabricaNet.Frame.WebSocket

namespace FabricaNet.Internal

open Go Xnet FabricaNet.Frame Lib

/-! ## The loop -/

section Read

variable {ω σ : Type} {decode : ω → σ → Decoded × World × σ} {r : Round ω} {s : σ}

/-- Where `Decode` returns no pack, nothing is decrypted and `read` fails. -/
theorem read_of_received_none (decode : ω → σ → Decoded × World × σ)
    (h : (decode r.codec s).1.received (decode r.codec s).2.1 (decode r.codec s).2.2 = none) :
    decrypted (read decode r s).2.1 = [] ∧ (read decode r s).1 ≠ .ok := by
  unfold read
  split
  · exact ⟨rfl, nofun⟩
  · split
    · exact ⟨rfl, nofun⟩
    · rcases hd : decode r.codec s with ⟨buf | e | _, w, rest⟩
      · rw [hd] at h; cases h
      · exact ⟨rfl, nofun⟩
      · exact ⟨rfl, nofun⟩

/-- A pack is decrypted, unless `read` fails before; nothing but an error keeps the loop from it. -/
theorem read_of_received_some (decode : ω → σ → Decoded × World × σ) {pack : Pack} {rest : σ}
    (h : (decode r.codec s).1.received (decode r.codec s).2.1 (decode r.codec s).2.2 =
      some (pack, rest)) :
    (r.Quiet ∨ (read decode r s).1 = .ok → decrypted (read decode r s).2.1 = [pack] ∧
        (read decode r s).2.2 = rest) ∧
      (r.Quiet → (read decode r s).1 = .ok) ∧
      decrypted (read decode r s).2.1 <+: [pack] := by
  unfold read
  split
  · next hstop =>
    refine ⟨?_, fun hq => ?_, List.nil_prefix⟩
    · rintro (hq | hok)
      · rw [hq.stopping_eq] at hstop; cases hstop
      · cases hok
    · rw [hq.stopping_eq] at hstop; cases hstop
  · split
    · next hdl =>
      refine ⟨?_, fun hq => ?_, List.nil_prefix⟩
      · rintro (hq | hok)
        · rw [hq.deadline_eq] at hdl; cases hdl
        · cases hok
      · rw [hq.deadline_eq] at hdl; cases hdl
    · rcases hd : decode r.codec s with ⟨buf | e | _, w, rest'⟩ <;> rw [hd] at h
      · obtain ⟨rfl, rfl⟩ := Prod.mk.inj (Option.some.inj h)
        dsimp only
        split
        · next hdec =>
          refine ⟨fun _ => ⟨rfl, rfl⟩, fun hq => ?_, List.prefix_rfl⟩
          obtain ⟨out, hout⟩ := hq.decrypt_ok (w.heap.read buf)
          rw [hout] at hdec
          cases hdec
        · next out _ => exact ⟨fun _ => ⟨rfl, rfl⟩, fun hq => hq.next_ok out, List.prefix_rfl⟩
      · cases h
      · cases h

/-- A loop goes on after a round that succeeds, and ends otherwise. -/
theorem readLoop_of_round (rs : List (Round ω)) (hctx : r.ctxDone = false) :
    readLoop decode (r :: rs) s =
      if (read decode r s).1 = .ok then
        ((readLoop decode rs (read decode r s).2.2).1,
          (read decode r s).2.1 ++ (readLoop decode rs (read decode r s).2.2).2)
      else (some (read decode r s).1, (read decode r s).2.1) := by
  rw [readLoop, hctx]
  simp only [Bool.false_eq_true, if_false]
  rcases read decode r s with ⟨_ | e | _, events, rest⟩ <;> rfl

end Read

section Messages

variable {ρ : Type} {r : MessageReceiver ρ}

/-- Only `packs` are passed to `Decrypt`; when nothing else stops the loop all of them are. -/
def Passes (r : MessageReceiver ρ) (packs : List Pack) (rs : List (Round World)) (c : ρ) : Prop :=
  decrypted (readLoop (WebSocket.decode r) rs c).2 <+: packs ∧
    ((∀ round ∈ rs, round.Quiet) →
      decrypted (readLoop (WebSocket.decode r) rs c).2 = packs.take rs.length ∧
        (packs.length < rs.length → (readLoop (WebSocket.decode r) rs c).1.isSome = true))

theorem passes_no_rounds (packs : List Pack) (c : ρ) : Passes r packs [] c :=
  ⟨List.nil_prefix, fun _ => ⟨rfl, fun hlt => absurd hlt (Nat.not_lt_zero _)⟩⟩

theorem readLoop_of_ctxDone {round : Round World} {rs : List (Round World)} {c : ρ}
    (h : round.ctxDone = true) :
    readLoop (WebSocket.decode r) (round :: rs) c = (some (.err errContext), []) := by
  rw [readLoop, h]
  rfl

/-- `Decode` returns no pack: the loop ends. -/
theorem passes_nil {c : ρ} (h : ∀ w, WebSocket.receive r w c = none) (rs : List (Round World)) :
    Passes r [] rs c := by
  cases rs with
  | nil => exact passes_no_rounds [] c
  | cons round rs =>
    cases hctx : round.ctxDone with
    | true =>
      rw [Passes, readLoop_of_ctxDone hctx]
      exact ⟨List.nil_prefix, fun _ => ⟨rfl, fun _ => rfl⟩⟩
    | false =>
      obtain ⟨hnone, hfail⟩ := read_of_received_none (WebSocket.decode r) (h round.codec)
      rw [Passes, readLoop_of_round rs hctx, if_neg hfail, hnone]
      exact ⟨List.nil_prefix, fun _ => ⟨rfl, fun _ => rfl⟩⟩

/-- `Decode` returns a pack: it is passed on, and the loop goes on behind it. -/
theorem passes_cons {c c' : ρ} {pack : Pack} {packs : List Pack}
    (h : ∀ w, WebSocket.receive r w c = some (pack, c')) (hrest : ∀ rs, Passes r packs rs c')
    (rs : List (Round World)) : Passes r (pack :: packs) rs c := by
  cases rs with
  | nil => exact passes_no_rounds _ c
  | cons round rs =>
    cases hctx : round.ctxDone with
    | true =>
      rw [Passes, readLoop_of_ctxDone hctx]
      refine ⟨List.nil_prefix, fun hq => ?_⟩
      exact absurd ((hq round List.mem_cons_self).ctxDone_eq.symm.trans hctx) Bool.false_ne_true
    | false =>
      obtain ⟨hgot, hok, hpre⟩ := read_of_received_some (WebSocket.decode r) (h round.codec)
      rw [Passes, readLoop_of_round rs hctx]
      constructor
      · split
        · next hr =>
          obtain ⟨hone, hleft⟩ := hgot (.inr hr)
          rw [hleft, decrypted_append, hone]
          exact List.cons_prefix_cons.mpr ⟨rfl, (hrest rs).1⟩
        · exact hpre.trans (List.cons_prefix_cons.mpr ⟨rfl, List.nil_prefix⟩)
      · intro hq
        have hr := hq round List.mem_cons_self
        obtain ⟨hone, hleft⟩ := hgot (.inl hr)
        obtain ⟨hall, hends⟩ := (hrest rs).2 fun r' hr' => hq r' (List.mem_cons_of_mem round hr')
        rw [if_pos (hok hr), hleft, decrypted_append, hone, hall]
        exact ⟨rfl, fun hlt => hends (Nat.lt_of_succ_lt_succ hlt)⟩

/--
**The read loop of a WebSocket connection decrypts the packs of the messages before the first that
is not of the type or begins with no frame, in order and each once, and then ends.**
-/
theorem readLoop_messages (messages : List Message) {c : ρ} (hc : r.messages c = messages)
    (rs : List (Round World)) : Passes r (WebSocket.leadingPacks messages) rs c := by
  induction messages generalizing c rs with
  | nil => exact passes_nil (fun w => WebSocket.receive_nil w hc) rs
  | cons m ms ih =>
    rw [WebSocket.leadingPacks]
    obtain ⟨c', hnext, hrest⟩ := r.nextReader_cons c _ _ hc
    have hreceive (w : World) : WebSocket.receive r w c =
        (WebSocket.parseMessage m).map fun pack => (pack, c') := WebSocket.receive_next w hnext
    cases hm : WebSocket.parseMessage m with
    | none => exact passes_nil (fun w => by rw [hreceive, hm]; rfl) rs
    | some pack => exact passes_cons (fun w => by rw [hreceive, hm]; rfl) (ih hrest) rs

end Messages

/--
**Over WebSocket the packs whose `Encode` has returned nil arrive, and at most one more.** For legal
packs on a connection that may break in any message: the acknowledged packs are the first ones, the
worker on the other side decrypts these, in order and each once, and then perhaps the one whose
`Encode` was the first to fail, and then its loop ends.
-/
theorem webSocket_acknowledged_delivered {κ μ ρ : Type} (g : MessageSender κ μ)
    (r : MessageReceiver ρ) {packs : List Pack} (hlegal : ∀ p ∈ packs, Legal p) {c : κ}
    (hc : g.wire c = .empty) {d : ρ}
    (hd : r.messages d = (g.wire (encodeEach (WebSocket.send g) () c packs).2).arrives) :
    ∃ k j, acknowledged packs (encodeEach (WebSocket.send g) () c packs).1 = packs.take k ∧
      (j = k ∨ j = k + 1) ∧ ∀ rs, Passes r (packs.take j) rs d := by
  obtain ⟨k, hack, hcut⟩ := WebSocket.encodeEach_cut (g := g) c packs
  rw [hc] at hcut
  obtain ⟨j, hj, hleading⟩ := hcut.leadingPacks_arrives hlegal
  refine ⟨k, j, hack, hj, fun rs => ?_⟩
  rw [← hleading]
  exact readLoop_messages _ hd rs

/-- Three messages, and the connection breaks in the second. -/
def brokenThree : List (Option Err) × PlainConn :=
  encodeEach (WebSocket.send plainSender) () ⟨.empty, some 12⟩ [[1, 2], [3, 4, 5], [6]]

/--
The first pack is acknowledged and arrives. Of the second message all but one byte arrives, and
`Decode` panics on it.
-/
theorem webSocket_acknowledged_first_of_three :
    acknowledged [[1, 2], [3, 4, 5], [6]] brokenThree.1 = [[1, 2]] ∧
      brokenThree.2.wire.arrives = [(2, [0, 0, 0, 2, 1, 2]), (2, [0, 0, 0, 3, 3, 4])] ∧
      (readLoop (WebSocket.decode plainReceiver)
        (List.replicate 3 { codec := World.bare, decrypt := .ok, next := fun _ => .ok })
        brokenThree.2.wire.arrives).1 = some .panic ∧
      ∃ k j, acknowledged [[1, 2], [3, 4, 5], [6]] brokenThree.1 =
          [[1, 2], [3, 4, 5], [6]].take k ∧ (j = k ∨ j = k + 1) ∧
        ∀ rs, Passes plainReceiver ([[1, 2], [3, 4, 5], [6]].take j) rs
          brokenThree.2.wire.arrives := by
  refine ⟨by decide, by decide, by decide +kernel, ?_⟩
  exact webSocket_acknowledged_delivered plainSender plainReceiver (by decide) rfl rfl

end FabricaNet.Internal
