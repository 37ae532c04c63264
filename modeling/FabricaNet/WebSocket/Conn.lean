import FabricaNet.Frame.Roundtrip

/-!
# The WebSocket connection as a stream

`WebSocketConn` of `websocket/wsconn/conn.go`, which wraps a `websocket.Conn` as a `net.Conn`.

`Write` sends its bytes as one message. `Read` asks for the next message and makes one `Read` on it.
The next call asks for a message again, and `NextReader` discards what has not been read of the one
before. So a `Read` with a buffer shorter than the message loses bytes, unless nothing more is
received (`read_lossless_iff`). When each `Read` takes a whole message, what one side writes is what
the other side reads (`received_writeAll`).

## What is left open

A message comes in frames and through a buffer, so a `Read` on it may return less than fits into the
caller's buffer. How much it has at hand is part of the call.
-/

namespace FabricaNet.WebSocket

open Go FabricaNet.Frame FabricaNet.Frame.WebSocket

/-- A call of `Read`. -/
structure ReadCall where
  /-- the length of the caller's buffer -/
  size : Nat
  size_pos : 0 < size
  /-- how much of the message can be read at once -/
  atHand : Nat
  atHand_pos : 0 < atHand

/-- How much of a message a call takes at most. -/
def ReadCall.takes (call : ReadCall) : Nat := min call.size call.atHand

namespace WebSocketConn

/-- `Read` of a reader that has these bytes to give. -/
def readMessage (payload : Bytes) (call : ReadCall) : Bytes × Option Err :=
  if payload = [] then ([], some errEOF) else (payload.take call.takes, none)

section
variable {κ μ ρ : Type} (g : MessageSender κ μ) (r : MessageReceiver ρ)

/-- `Read`: the bytes it puts into the buffer, and its error. -/
def read (c : ρ) (call : ReadCall) : Bytes × Option Err × ρ :=
  match r.nextReader c with
  | (.error e, c) => ([], some e, c)
  | (.ok (mt, payload), c) =>
    if mt ≠ messageType then ([], some errInvalidFrameType, c)
    else
      let (bytes, err) := readMessage payload call
      (bytes, err, c)

/-- `Write`. The deferred function closes the message and joins its error to the result. -/
def write (c : κ) (b : Bytes) : Nat × Option Err × κ :=
  match g.nextWriter c messageType with
  | .error (e, c) => (0, some e, c)
  | .ok w =>
    let (n, err, w) := g.write w b
    match g.close w with
    | (some closeErr, c) => (n, some (Err.joinTo err closeErr), c)
    | (none, c) => (n, err, c)

/-- The bytes that one `Read` after the other returns. -/
def received (c : ρ) : List ReadCall → Bytes
  | [] => []
  | call :: calls =>
    let (bytes, _, c) := read r c call
    bytes ++ received c calls

/-- One `Write` after the other. -/
def writeAll (c : κ) : List Bytes → κ
  | [] => c
  | b :: bs => writeAll (write g c b).2.2 bs

end

/-- Binary messages with these payloads. -/
def binary (payloads : List Bytes) : List Message :=
  payloads.map fun payload => (messageType, payload)

/--
Of messages with these lengths, each one that is read fits into what its `Read` takes, or the
messages that are read after it are empty.
-/
def NoLoss (lengths : List Nat) (calls : List ReadCall) : Prop :=
  (lengths.zip calls).Pairwise fun e e' => e.1 ≤ e.2.takes ∨ e'.1 = 0

instance NoLoss.decidable (lengths : List Nat) (calls : List ReadCall) :
    Decidable (NoLoss lengths calls) :=
  inferInstanceAs (Decidable (List.Pairwise _ _))

/-! ## What the reads return -/

/-- What the calls take of the messages, one call for each message. -/
def delivered (payloads : List Bytes) (calls : List ReadCall) : Bytes :=
  ((payloads.zip calls).map fun e => e.1.take e.2.takes).flatten

theorem delivered_cons (p : Bytes) (ps : List Bytes) (r : ReadCall) (rs : List ReadCall) :
    delivered (p :: ps) (r :: rs) = p.take r.takes ++ delivered ps rs := rfl

section
variable {ρ : Type} {r : MessageReceiver ρ}

/-- A call of `Read` takes from the next message, whatever is unread of the one before. -/
theorem read_binary {c : ρ} {payload : Bytes} {rest : List Message}
    (h : r.messages c = (messageType, payload) :: rest) (call : ReadCall) :
    ∃ err c', read r c call = (payload.take call.takes, err, c') ∧ r.messages c' = rest := by
  obtain ⟨c', hnext, hrest⟩ := r.nextReader_cons c _ _ h
  unfold read readMessage
  rw [hnext]
  simp only [ne_eq, not_true_eq_false, if_false]
  split
  · next hempty => exact ⟨_, c', by rw [hempty, List.take_nil], hrest⟩
  · exact ⟨_, c', rfl, hrest⟩

theorem read_closed {c : ρ} (h : r.messages c = []) (call : ReadCall) :
    ∃ err c', read r c call = ([], err, c') ∧ r.messages c' = [] := by
  obtain ⟨e, c', hnext, hrest⟩ := r.nextReader_nil c h
  unfold read
  rw [hnext]
  exact ⟨_, c', rfl, hrest⟩

/-- **One message for each call.** -/
theorem received_eq_delivered {c : ρ} {payloads : List Bytes}
    (h : r.messages c = binary payloads) (calls : List ReadCall) :
    received r c calls = delivered payloads calls := by
  induction calls generalizing c payloads with
  | nil => simp [received, delivered]
  | cons call calls ih =>
    cases payloads with
    | nil =>
      obtain ⟨err, c', hread, hmessages⟩ := read_closed h call
      have hnone : r.messages c' = binary [] := hmessages
      simp only [received, hread, List.nil_append]
      exact ih hnone
    | cons payload payloads =>
      obtain ⟨err, c', hread, hmessages⟩ := read_binary h call
      simp only [received, hread]
      rw [ih hmessages, delivered_cons]

end

/-- Nothing is received twice or out of order. -/
theorem delivered_sublist (payloads : List Bytes) (calls : List ReadCall) :
    (delivered payloads calls).Sublist payloads.flatten := by
  induction payloads generalizing calls with
  | nil => exact List.Sublist.refl _
  | cons payload payloads ih =>
    cases calls with
    | nil => exact List.nil_sublist _
    | cons call calls =>
      rw [delivered_cons, List.flatten_cons]
      exact (List.take_sublist _ _).append (ih calls)

theorem delivered_eq_nil_iff {payloads : List Bytes} {calls : List ReadCall} :
    delivered payloads calls = [] ↔ ∀ e ∈ (payloads.map List.length).zip calls, e.1 = 0 := by
  have hpos (call : ReadCall) : 0 < call.takes := Nat.lt_min.mpr ⟨call.size_pos, call.atHand_pos⟩
  unfold delivered
  rw [List.flatten_eq_nil_iff, List.zip_map_left, List.forall_mem_map, List.forall_mem_map]
  refine forall₂_congr fun e _ => ?_
  rw [← List.length_eq_zero_iff, List.length_take]
  have htakes := hpos e.2
  show _ ↔ e.1.length = 0
  omega

/-! ## When nothing is lost -/

theorem noLoss_cons {n : Nat} {ns : List Nat} {r : ReadCall} {rs : List ReadCall} :
    NoLoss (n :: ns) (r :: rs) ↔
      (n ≤ r.takes ∨ ∀ e ∈ ns.zip rs, e.1 = 0) ∧ NoLoss ns rs := by
  unfold NoLoss
  rw [List.zip_cons_cons, List.pairwise_cons]
  refine and_congr_left fun _ => ⟨fun h => ?_, fun h e he => h.imp id fun hall => hall e he⟩
  by_cases hfits : n ≤ r.takes
  · exact Or.inl hfits
  · exact Or.inr fun e he => (h e he).resolve_left hfits

theorem noLoss_of_empty {ns : List Nat} {rs : List ReadCall} (h : ∀ e ∈ ns.zip rs, e.1 = 0) :
    NoLoss ns rs :=
  List.pairwise_iff_forall_sublist.mpr fun hsub =>
    Or.inr (h _ (hsub.subset (List.mem_cons_of_mem _ List.mem_cons_self)))

theorem delivered_prefix {payloads : List Bytes} {calls : List ReadCall}
    (h : NoLoss (payloads.map List.length) calls) :
    delivered payloads calls <+: payloads.flatten := by
  induction payloads generalizing calls with
  | nil => exact List.prefix_refl _
  | cons p ps ih =>
    cases calls with
    | nil => exact List.nil_prefix
    | cons r rs =>
      obtain ⟨hfirst, hrest⟩ := noLoss_cons.mp h
      rw [delivered_cons, List.flatten_cons]
      rcases hfirst with hfits | hempty
      · rw [List.take_of_length_le hfits]
        exact (List.prefix_append_right_inj p).mpr (ih hrest)
      · rw [delivered_eq_nil_iff.mpr hempty, List.append_nil]
        exact (List.take_prefix _ _).trans (List.prefix_append _ _)

/-- Payloads of these lengths with one byte everywhere. -/
def filled (b : UInt8) (lengths : List Nat) : List Bytes := lengths.map fun n => List.replicate n b

theorem length_filled (b : UInt8) (lengths : List Nat) :
    (filled b lengths).map List.length = lengths := by
  simp [filled, Function.comp_def]

/-- What is received of messages full of one byte is that byte. -/
theorem eq_of_mem_delivered_filled {b x : UInt8} {lengths : List Nat} {calls : List ReadCall}
    (h : x ∈ delivered (filled b lengths) calls) : x = b := by
  have hx := (delivered_sublist _ _).subset h
  obtain ⟨bytes, hbytes, hx⟩ := List.mem_flatten.mp hx
  obtain ⟨n, -, rfl⟩ := List.mem_map.mp hbytes
  exact List.eq_of_mem_replicate hx

/--
A first message of zeros that does not fit, and then nothing but ones: the stream goes on with a
zero, and what is received goes on with a one or not at all.
-/
theorem delivered_filled_eq_nil {n : Nat} {ns : List Nat} {r : ReadCall} {rs : List ReadCall}
    (hlong : r.takes < n)
    (h : delivered (List.replicate n 0 :: filled 1 ns) (r :: rs) <+:
      (List.replicate n 0 :: filled 1 ns).flatten) : delivered (filled 1 ns) rs = [] := by
  obtain ⟨k, rfl⟩ := Nat.exists_eq_add_of_lt hlong
  have hsplit : List.replicate (r.takes + k + 1) (0 : UInt8) =
      List.replicate r.takes 0 ++ 0 :: List.replicate k 0 := by
    rw [Nat.add_assoc, List.replicate_add, List.replicate_succ]
  rw [delivered_cons, List.flatten_cons, List.take_replicate, Nat.min_eq_left hlong.le, hsplit,
    List.append_assoc, List.prefix_append_right_inj, List.cons_append] at h
  cases hnext : delivered (filled 1 ns) rs with
  | nil => rfl
  | cons x xs =>
    rw [hnext, List.cons_prefix_cons] at h
    have hone : x = 1 := eq_of_mem_delivered_filled (by rw [hnext]; exact List.mem_cons_self)
    exact absurd (hone.symm.trans h.1) (by decide)

theorem noLoss_of_prefix {lengths : List Nat} {calls : List ReadCall}
    (h : ∀ payloads : List Bytes, payloads.map List.length = lengths →
      delivered payloads calls <+: payloads.flatten) : NoLoss lengths calls := by
  induction lengths generalizing calls with
  | nil => exact List.Pairwise.nil
  | cons n ns ih =>
    cases calls with
    | nil => exact noLoss_of_empty fun e he => by simp at he
    | cons r rs =>
      by_cases hfits : n ≤ r.takes
      · -- the first message is received as it is, and the rest as a stream of its own
        refine noLoss_cons.mpr ⟨Or.inl hfits, ih fun payloads hlengths => ?_⟩
        have hcons := h (List.replicate n 0 :: payloads) (by simp [hlengths])
        rw [delivered_cons, List.flatten_cons,
          List.take_of_length_le (by rwa [List.length_replicate])] at hcons
        exact (List.prefix_append_right_inj _).mp hcons
      · have hnil : delivered (filled 1 ns) rs = [] :=
          delivered_filled_eq_nil (Nat.lt_of_not_le hfits) (h _ (by simp [length_filled]))
        have hempty := delivered_eq_nil_iff.mp hnil
        rw [length_filled] at hempty
        exact noLoss_cons.mpr ⟨Or.inr hempty, noLoss_of_empty hempty⟩

/--
**The bytes that the `Read`s return are a prefix of the payloads, whatever bytes these hold, exactly
when no `Read` leaves a part of its message behind before bytes of another message are read.**
-/
theorem read_lossless_iff {ρ : Type} (r : MessageReceiver ρ) (lengths : List Nat)
    (calls : List ReadCall) :
    (∀ payloads c, payloads.map List.length = lengths → r.messages c = binary payloads →
      received r c calls <+: payloads.flatten) ↔ NoLoss lengths calls := by
  constructor
  · intro h
    refine noLoss_of_prefix fun payloads hlengths => ?_
    have hmessages := r.messages_holding (binary payloads)
    rw [← received_eq_delivered hmessages calls]
    exact h payloads _ hlengths hmessages
  · rintro h payloads c rfl hmessages
    rw [received_eq_delivered hmessages calls]
    exact delivered_prefix h

/--
Two bytes come in and are all at hand, but the buffer holds one. The next `Read` is given the next
message, and the second byte is lost.
-/
theorem read_skips_byte :
    let call : ReadCall := ⟨1, by decide, 2, by decide⟩
    let payloads : List Bytes := [[1, 2], [3]]
    received plainReceiver (binary payloads) [call, call] = [1, 3] ∧
      ¬received plainReceiver (binary payloads) [call, call] <+: payloads.flatten ∧
      ¬NoLoss (payloads.map List.length) [call, call] := by
  decide

/-! ## From one side to the other -/

section
variable {κ μ ρ : Type} {g : MessageSender κ μ} {r : MessageReceiver ρ}

/-- **On a healthy connection `Write` sends its bytes as one message.** -/
theorem write_healthy {c : κ} (h : g.Healthy c) (b : Bytes) :
    ∃ c', write g c b = (b.length, none, c') ∧ g.Healthy c' ∧
      g.wire c' = (g.wire c).push (messageType, b) := by
  rcases g.nextWriter_cases c with ⟨w, hnext, hw⟩ | ⟨hbad, -⟩
  · rcases g.write_cases w c _ _ b hw with ⟨w', hwrite, hw'⟩ | ⟨hbad, -⟩
    · rcases g.close_cases w' c _ hw' with ⟨c', hclose, hc', hwire⟩ | ⟨hbad, -⟩
      · refine ⟨c', ?_, hc' h, hwire⟩
        simp only [write, messageType, hnext, hwrite, hclose]
      · exact absurd h hbad
    · exact absurd h hbad
  · exact absurd h hbad

theorem sent_writeAll {c : κ} (h : g.Healthy c) (bs : List Bytes) :
    (g.wire (writeAll g c bs)).sent = (g.wire c).sent ++ binary bs := by
  induction bs generalizing c with
  | nil => exact (List.append_nil _).symm
  | cons b bs ih =>
    obtain ⟨c', hwrite, hc', hwire⟩ := write_healthy h b
    rw [writeAll, hwrite, ih hc', hwire]
    exact List.append_assoc ..

/-- **What one side writes the other side reads, when each `Read` takes a whole message.** -/
theorem received_writeAll {bs : List Bytes} {calls : List ReadCall}
    (hfits : List.Forall₂ (fun b call => b.length ≤ call.takes) bs calls) {c : κ}
    (h : g.Healthy c) (hsent : (g.wire c).sent = []) {d : ρ}
    (hd : r.messages d = (g.wire (writeAll g c bs)).sent) : received r d calls = bs.flatten := by
  rw [sent_writeAll h, hsent, List.nil_append] at hd
  rw [received_eq_delivered hd]
  clear hd
  induction hfits with
  | nil => rfl
  | cons hfirst _ ih => rw [delivered_cons, List.take_of_length_le hfirst, ih, List.flatten_cons]

end

end WebSocketConn

end FabricaNet.WebSocket
