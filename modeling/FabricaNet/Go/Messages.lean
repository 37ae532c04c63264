import FabricaNet.Go.Io

/-!
# Connections that carry messages

What is used of `Conn` of the package `gorilla/websocket`: on the sending side `NextWriter`, with
`Write` and `Close` of the writer that it returns, and on the receiving side `NextReader`. The
functions are parameters, and so are the states of a connection and of a writer. What is asked of
the functions stands with them.

* `MessageSender` — what is written between `NextWriter` and `Close` is one message. It has gone out
  as a whole when `Close` has returned nil. When one of the calls has returned an error, a beginning
  of the message may have gone out, and no call of `NextWriter` succeeds after that.
* `MessageReceiver` — there is one reader for each message, in order, and what has been read from it
  does not matter to the next one

`plainSender` and `plainReceiver` are such connections.

## What is left out

Only calls with the type of binary messages are considered: `NextWriter` also fails, without further
consequences, for a type that does not exist. A connection on which `NextReader` has failed panics
when it is called a thousand times more.
-/

namespace Go

/-- A message: its type and its payload. -/
abbrev Message := Int × List UInt8

/-- `websocket.BinaryMessage`. -/
def binaryMessage : Int := 2

/-! ## Sending -/

/-- What has gone out on a connection. -/
structure Wire where
  /-- the complete messages -/
  sent : List Message
  /-- the beginning of a message that was not completed -/
  torn : Option Message
  /-- there is no further writer -/
  broken : Bool

namespace Wire

def empty : Wire := ⟨[], none, false⟩

/-- A complete message goes out. -/
def push (o : Wire) (m : Message) : Wire := { o with sent := o.sent ++ [m] }

/-- The connection breaks in a message, of which nothing has gone out or a beginning. -/
inductive Breaks (o : Wire) (m : Message) : Wire → Prop
  | nothing : Breaks o m { o with broken := true }
  | beginning {b : List UInt8} (h : b <+: m.2) :
      Breaks o m { o with torn := some (m.1, b), broken := true }

/-- What comes in on the other side. -/
def arrives (o : Wire) : List Message := o.sent ++ o.torn.toList

theorem Breaks.append {o o' : Wire} {mt : Int} {message : List UInt8}
    (h : o.Breaks (mt, message) o') (p : List UInt8) : o.Breaks (mt, message ++ p) o' := by
  cases h with
  | nothing => exact .nothing
  | beginning h => exact .beginning (h.trans (List.prefix_append message p))

theorem Breaks.broken {o o' : Wire} {m : Message} (h : o.Breaks m o') : o'.broken = true := by
  cases h <;> rfl

end Wire

/-- The sending side. `κ` are the states of a connection, `μ` those of a writer. -/
structure MessageSender (κ μ : Type) where
  /-- an error comes with the connection after the call -/
  nextWriter : κ → Int → Except (Err × κ) μ
  write : μ → List UInt8 → Nat × Option Err × μ
  close : μ → Option Err × κ
  wire : κ → Wire
  /-- nothing fails on the connection -/
  Healthy : κ → Prop
  /-- the writer was returned for the connection and was passed this message so far -/
  Holds : μ → κ → Message → Prop
  /-- the same, and a `Write` has failed -/
  Fails : μ → κ → Message → Prop
  /-- a new connection -/
  fresh : κ
  healthy_fresh : Healthy fresh
  nextWriter_cases : ∀ c,
    (∃ w, nextWriter c binaryMessage = .ok w ∧ Holds w c (binaryMessage, [])) ∨
    ¬Healthy c ∧ ∃ e c', nextWriter c binaryMessage = .error (e, c') ∧
      wire c' = { wire c with broken := true }
  nextWriter_broken : ∀ c, (wire c).broken = true →
    ∃ e c', nextWriter c binaryMessage = .error (e, c') ∧ wire c' = wire c
  write_cases : ∀ w c mt message p, Holds w c (mt, message) →
    (∃ w', write w p = (p.length, none, w') ∧ Holds w' c (mt, message ++ p)) ∨
    ¬Healthy c ∧ ∃ n e w', write w p = (n, some e, w') ∧ Fails w' c (mt, message ++ p)
  close_cases : ∀ w c m, Holds w c m →
    (∃ c', close w = (none, c') ∧ (Healthy c → Healthy c') ∧ wire c' = (wire c).push m) ∨
    ¬Healthy c ∧ ∃ e c', close w = (some e, c') ∧ (wire c).Breaks m (wire c')
  close_fails : ∀ w c m, Fails w c m →
    ∃ e c', close w = (some e, c') ∧ (wire c).Breaks m (wire c')

/-! ## Receiving -/

/-- The receiving side. `ρ` are the states of a connection. -/
structure MessageReceiver (ρ : Type) where
  /-- the type of a message and the bytes that its reader gives -/
  nextReader : ρ → Except Err Message × ρ
  /-- `IsUnexpectedCloseError(err, CloseGoingAway, CloseNormalClosure)` -/
  isUnexpectedCloseError : Err → Bool
  /-- the messages still to come -/
  messages : ρ → List Message
  /-- a connection on which these messages come in -/
  holding : List Message → ρ
  messages_holding : ∀ ms, messages (holding ms) = ms
  nextReader_cons : ∀ c m ms, messages c = m :: ms →
    ∃ c', nextReader c = (.ok m, c') ∧ messages c' = ms
  nextReader_nil : ∀ c, messages c = [] →
    ∃ e c', nextReader c = (.error e, c') ∧ messages c' = []

/-! ## Such connections -/

/-- A connection that breaks when it is passed more bytes than it has room for. -/
structure PlainConn where
  wire : Wire
  room : Option Nat

structure PlainWriter where
  conn : PlainConn
  messageType : Int
  message : List UInt8
  failed : Bool

/-- A connection that keeps a message until its writer is closed or fails. -/
def plainSender : MessageSender PlainConn PlainWriter where
  nextWriter := fun c mt =>
    if c.wire.broken then .error (errEOF, c) else .ok ⟨c, mt, [], false⟩
  write := fun w p =>
    match w.conn.room with
    | none => (p.length, none, { w with message := w.message ++ p })
    | some k =>
      if (w.message ++ p).length ≤ k then (p.length, none, { w with message := w.message ++ p })
      else (0, some errEOF, { w with message := (w.message ++ p).take k, failed := true })
  close := fun w =>
    if w.failed then
      (some errEOF, { w.conn with
        wire := { w.conn.wire with torn := some (w.messageType, w.message), broken := true } })
    else
      (none, { wire := w.conn.wire.push (w.messageType, w.message)
               room := w.conn.room.map (· - w.message.length) })
  wire := PlainConn.wire
  Healthy := fun c => c.wire.broken = false ∧ c.room = none
  Holds := fun w c m => w = ⟨c, m.1, m.2, false⟩
  Fails := fun w c m => ∃ b, b <+: m.2 ∧ w = ⟨c, m.1, b, true⟩
  fresh := ⟨.empty, none⟩
  healthy_fresh := ⟨rfl, rfl⟩
  nextWriter_cases := by
    intro c
    cases hc : c.wire.broken with
    | false => exact .inl ⟨_, if_neg Bool.false_ne_true, rfl⟩
    | true =>
      refine .inr ⟨fun h => Bool.noConfusion h.1, errEOF, c, if_pos rfl, ?_⟩
      rw [← hc]
  nextWriter_broken := fun c h => ⟨errEOF, c, if_pos h, rfl⟩
  write_cases := by
    rintro _ c mt message p rfl
    dsimp only
    cases hroom : c.room with
    | none => exact .inl ⟨_, rfl, rfl⟩
    | some k =>
      dsimp only
      split
      · exact .inl ⟨_, rfl, rfl⟩
      · exact .inr ⟨fun h => absurd h.2 (Option.some_ne_none k), _, _, _, rfl, _,
          List.take_prefix .., rfl⟩
  close_cases := by
    rintro _ c m rfl
    refine .inl ⟨_, rfl, fun h => ⟨h.1, ?_⟩, rfl⟩
    rw [h.2]
    rfl
  close_fails := by
    rintro _ c m ⟨b, hb, rfl⟩
    exact ⟨_, _, rfl, .beginning hb⟩

/-- A list of messages. -/
def plainReceiver : MessageReceiver (List Message) where
  nextReader := fun
    | [] => (.error errEOF, [])
    | m :: ms => (.ok m, ms)
  isUnexpectedCloseError := fun _ => false
  messages := id
  holding := id
  messages_holding := fun _ => rfl
  nextReader_cons := by
    rintro _ m ms rfl
    exact ⟨_, rfl, rfl⟩
  nextReader_nil := by
    rintro _ rfl
    exact ⟨_, _, rfl, rfl⟩

end Go
