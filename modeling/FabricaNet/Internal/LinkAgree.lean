import FabricaNet.Internal.LinkStages

/-!
# Which frames are encrypted

The two ends of a connection have to agree on which frames are encrypted, and under which session.
In each direction the first frame is the one of the handshake, as it is, and every later one is an
application pack that is encrypted under the session that `Auth`, or `AuthFunc`, has returned. The
receiver takes the first frame as it is and decrypts the others.

The sessions are never in the way of this: `authed` is closed after the client has its session, and
`Run` is called after the server has its own. But `Dialog.Send` calls `Encode` without a lock. The
writes of two application goroutines can interleave, and then what is on the wire is not made of
their frames. Both ends agree when a goroutine of the client begins to write only while no other one
is in `Encode`, as with a lock around the call. On the server one goroutine does all the writing.
-/

namespace FabricaNet.Internal

open Go Xnet Lib FabricaNet.Frame

/-- The sender and the receiver of a lane agree. -/
structure LaneAgrees (l : Lane) (sender receiver : Option Cryptor) : Prop where
  /-- the wire carries the frames of the packs that were passed to `Encode` -/
  wire : l.out.sent <+: frameCode.encodeAll (l.log.map Sent.bytes)
  /-- the first one is of the handshake, the others are encrypted under the sender's session -/
  speaks : Speaks l.log sender
  /-- the first frame that the receiver decodes is the first one that was sent -/
  first : ∀ pack, l.got.head? = some pack → (l.log.map Sent.bytes).head? = some pack
  /-- the others it decrypts, each under its own session, and gets the pack if the two match -/
  later : ∀ k o, l.opened[k]? = some o → some o.session = receiver ∧
    ∃ e, l.log[k + 1]? = some e ∧ e.bytes = o.bytes ∧
      (e.session.Matches o.session → o.result = .ok e.pack)

theorem laneAgrees_of_ok {l : Lane} {mid : Option EncodePc} {sender receiver : Option Cryptor}
    (hok : l.Ok mid) (hspeaks : Speaks l.log sender)
    (hsessions : ∀ o ∈ l.opened, some o.session = receiver) : LaneAgrees l sender receiver := by
  refine ⟨hok.carries.sent_prefix, hspeaks, fun pack hpack => ?_, fun k o ho => ?_⟩
  · obtain ⟨rest, hrest⟩ := hok.got
    rw [← hrest, List.head?_append, hpack]
    rfl
  · have hmem := List.mem_of_getElem? ho
    obtain ⟨e, he, hbytes⟩ := hok.opened_sent ho
    refine ⟨hsessions o hmem, e, he, hbytes, fun hmatches => ?_⟩
    have htail : e ∈ l.log.tail := by
      rw [← List.getElem?_tail] at he
      exact List.mem_of_getElem? he
    obtain ⟨-, -, n, hencrypt⟩ := hspeaks.later e htail
    rw [hok.results o hmem, ← hbytes]
    exact hmatches n e.pack e.bytes hencrypt

namespace LinkRun

/-- Both ends agree, in each direction. -/
structure Agreed (s : LinkRun) : Prop where
  c2s : LaneAgrees s.c2s s.client.negotiated s.server.negotiated
  s2c : LaneAgrees s.s2c s.server.negotiated s.client.negotiated

/--
A goroutine of the client writes a header only when no other one is in `Encode`, and the length of
every pack that is encoded, on either side, fits into the header.
-/
def Serial (s : LinkRun) (a : LinkAct) : Prop := s.ClientKeepsApart a ∧ s.ServerFits a

instance (s : LinkRun) (a : LinkAct) : Decidable (s.Serial a) := instDecidableAnd

theorem agreed_of_links {s : LinkRun} (hup : s.Uplink) (hdown : s.Downlink) : s.Agreed := by
  obtain ⟨mid, -, hok⟩ := hup.ok
  exact ⟨laneAgrees_of_ok hok hup.sends.speaks hup.hears.sessions,
    laneAgrees_of_ok hdown.ok hdown.sends.speaks hdown.hears.sessions⟩

/-! ## Two ends that have shaken hands -/

/-- The cryptor of a cipher that puts a byte behind the pack. -/
def tagging : Cryptor := newCryptor {
  encrypt := fun _ pack => .ok (pack ++ [7])
  decrypt := fun bytes =>
    if bytes.getLast? = some 7 then .ok bytes.dropLast else .error (.new "no tag") }

def bareConf (t : Protocol) : LinkConf where
  protocol := t
  replyChanSize := 1
  writeFilter := fun _ pack => .ok pack

/-- The handshake of both ends, `Run`, and the start of `receiveLoop`. -/
def handshakeActs : List LinkAct :=
  [[.client (.handshakePack (some [1]))],
    -- the check, `Encrypt`, and `Encode`
    List.replicate 5 (.client (.dialog true 0)),
    [.server (.workDecode ({}, World.bare)), .server (.auth (some ([2], tagging)))],
    -- `Encode` of the reply, and the session
    List.replicate 4 (.server (.work true)),
    [.server .run, .client (.dialogDecode ({}, World.bare)), .client (.authFunc tagging true)],
    List.replicate 2 (.client (.dialog true 0))].flatten

/-- An application goroutine sends a pack, and the server pushes one. -/
def exchangeActs : List LinkAct :=
  [[.client (.app [3])],
    List.replicate 6 (.client (.appStep 0 true 0)),
    [.server (.readDecode ({}, World.bare)), .server (.read true)],
    [.server (.worker (.push 0 [4]))],
    List.replicate 3 (.server (.worker (.pushStep 0))),
    [.server (.worker .loopRecv), .server (.encrypt 0)],
    List.replicate 3 (.server .encode),
    [.client (.receiveDecode ({}, World.bare)), .client (.receive true)]].flatten

/-! ## Agreement -/

/-- **As long as the client's calls of `Encode` keep apart, both ends agree in every state.** -/
theorem agreed_of_serial (c : LinkConf) (acts : List LinkAct)
    (h : EachStep (step c) (fun s a _ => s.Serial a) (init c) acts) :
    EachState (step c) Agreed (init c) acts :=
  eachState_of_inv (I := fun s => s.Uplink ∧ s.Downlink)
    (fun _ _ _ hi hc hs => ⟨hi.1.step hc.1 hs, hi.2.step hc.2 hs⟩)
    (fun _ hi => agreed_of_links hi.1 hi.2) ⟨uplink_init c, downlink_init c⟩ h

/-- The exchange is made over the protocol, each side decrypts what the other has sent. -/
def Exchanged (t : Protocol) : Prop :=
  (∃ s, run (step (bareConf t)) (init (bareConf t)) (handshakeActs ++ exchangeActs) = some s ∧
    s.c2s.opened.map Opened.result = [.ok [3]] ∧ s.s2c.opened.map Opened.result = [.ok [4]]) ∧
  EachState (step (bareConf t)) Agreed (init (bareConf t)) (handshakeActs ++ exchangeActs)

theorem agreed_of_exchange : Exchanged .tcp ∧ Exchanged .kcp ∧ Exchanged .webSocket := by
  refine ⟨⟨⟨_, rfl, rfl, rfl⟩, ?_⟩, ⟨⟨_, rfl, rfl, rfl⟩, ?_⟩, ⟨_, rfl, rfl, rfl⟩, ?_⟩
  · exact agreed_of_serial (bareConf .tcp) (handshakeActs ++ exchangeActs) (by decide +kernel)
  · exact agreed_of_serial (bareConf .kcp) (handshakeActs ++ exchangeActs) (by decide +kernel)
  · exact agreed_of_serial (bareConf .webSocket) (handshakeActs ++ exchangeActs)
      (by decide +kernel)

/-- Two application goroutines that both write their header before they write a body. -/
def interleavedActs : List LinkAct :=
  [[.client (.app [3]), .client (.app [4])],
    List.replicate 4 (.client (.appStep 0 true 0)),
    List.replicate 4 (.client (.appStep 1 true 0)),
    [.client (.appStep 0 true 0), .client (.appStep 1 true 0), .client (.appStep 0 true 0)],
    [.server (.readDecode ({}, World.bare)), .server (.read true)]].flatten

/-- The bytes of the second header are taken for the body of the first pack. -/
theorem headers_interleave : ∃ s,
    run (step (bareConf .tcp)) (init (bareConf .tcp)) (handshakeActs ++ interleavedActs) = some s ∧
      ¬s.Agreed ∧ s.c2s.log.map Sent.bytes = [[1], [3, 7], [4, 7]] ∧ s.c2s.got = [[1], [0, 0]] := by
  refine ⟨_, rfl, fun h => ?_, rfl, rfl⟩
  exact absurd h.c2s.wire (by decide +kernel)

end LinkRun

end FabricaNet.Internal
