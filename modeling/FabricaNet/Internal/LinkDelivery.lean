import FabricaNet.Internal.Drain
import FabricaNet.Internal.LinkAgree

/-!
# From `sendChan` to `Receive`

What a worker sends to a client goes through several places: `sendChan`, the hands of `sendLoop`,
the lane, the hands of `receiveLoop`, and `receivedPackChan`. Each of them keeps the order, and none
drops or repeats a pack, so the packs on `receivedPackChan` are a prefix of those on `sendChan`:

* the packs passed to `Encode` are the first ones sent on `sendChan` (`InOrder`)
* the packs on the lane after the reply are the packs passed to `Encode` (`Forwards`)
* the packs that `receiveLoop` has decrypted are the first ones of these, when the two sessions
  match (`openedPacks_prefix`)
* and they have gone on `receivedPackChan`, but for the one in its hands (`Received`)

The writes of the client may interleave as they like: they go on the other lane.
-/

namespace FabricaNet.Internal

open Go Xnet Lib FabricaNet.Frame

/-! ## The queue -/

namespace WorkerRun

/-- What has been sent on `sendChan` is what has been encoded and what is still to be encoded. -/
structure InOrder (s : WorkerRun) (accepted : List Item) : Prop where
  room : s.sendChan.buf.length ≤ s.sendChan.cap
  encoded : s.encoded <+: accepted
  all : s.loop ≠ .exited → accepted = s.encoded ++ s.pending

variable {s s' : WorkerRun} {a : WorkerAct} {accepted : List Item}

theorem inOrder_init (replyChanSize : Nat) : InOrder (init replyChanSize) [] :=
  ⟨Nat.zero_le _, List.prefix_rfl, fun _ => rfl⟩

theorem inHand_of_select (h : s.loop = .select) : s.inHand = [] := by
  unfold inHand
  rw [h]

theorem room_of_pushStep {i : Nat} (h : s.sendChan.buf.length ≤ s.sendChan.cap)
    (hs : s.pushStep i = some s') : s'.sendChan.buf.length ≤ s'.sendChan.cap := by
  unfold pushStep at hs
  split at hs
  · split at hs
    · cases hs; exact h
    · split at hs <;> cases hs <;> exact h
  · split at hs
    · cases hs
    · cases hs; exact h
    · next hsend => cases hs; exact Chan.length_of_send hsend
  · cases hs; exact h
  · cases hs

theorem buf_of_handOff {i : Nat} (h : s.sendChan.buf.length ≤ s.sendChan.cap)
    (hs : s.step (.handOff i) = some s') : s.sendChan.buf = [] := by
  obtain ⟨-, hoff⟩ := Option.ite_none_right_eq_some.mp hs
  unfold handOff at hoff
  split at hoff
  · obtain ⟨hoff, -⟩ := Option.ite_none_right_eq_some.mp hoff
    have hcap : s.sendChan.cap = 0 := by
      simp only [Chan.handsOff, Bool.and_eq_true, decide_eq_true_eq] at hoff
      exact hoff.1
    exact List.length_eq_zero_iff.mp (by omega)
  · cases hoff

/-- A step that leaves the packs where they are. -/
theorem InOrder.congr (h : InOrder s accepted) (hchan : s'.sendChan = s.sendChan)
    (hencoded : s'.encoded = s.encoded)
    (hloop : s'.loop ≠ .exited → s.loop ≠ .exited ∧ s'.inHand = s.inHand) :
    InOrder s' accepted := by
  refine ⟨hchan ▸ h.room, hencoded ▸ h.encoded, fun hl => ?_⟩
  obtain ⟨hl, hhand⟩ := hloop hl
  rw [h.all hl, hencoded, pending, pending, hhand, hchan]

/-- A step that ends `sendLoop`. -/
theorem InOrder.exited (h : InOrder s accepted) (ctxDone : Bool) :
    InOrder { s with loop := .exited, ctxDone := ctxDone } accepted :=
  h.congr rfl rfl fun hl => absurd rfl hl

/-- The pack in hand is passed to `Encode`. -/
theorem InOrder.encode (h : InOrder s accepted) {item : Item} (hloop : s.loop = .writing item) :
    InOrder { s with
      encoded := s.encoded ++ [item], loop := .encoding item s.connClosed } accepted := by
  have hall : accepted = s.encoded ++ [item] ++ s.sendChan.buf := by
    rw [h.all (by rw [hloop]; nofun), pending, inHand, hloop, List.append_assoc]
  exact ⟨h.room, hall ▸ List.prefix_append _ _, fun _ => hall⟩

/-- **A step of the queue, with the packs that it sends on `sendChan`.** -/
theorem InOrder.queue (h : InOrder s accepted) (ha : LinkRun.ofQueue a = true)
    (hs : s.step a = some s') : InOrder s' (accepted ++ LinkRun.sentBy s s' a) := by
  cases step_effect hs with
  | push pc =>
    rw [show LinkRun.sentBy _ _ _ = [] from rfl, List.append_nil]
    exact h.congr rfl rfl fun hl => ⟨hl, rfl⟩
  | ctxDone act =>
    rw [show LinkRun.sentBy _ _ _ = [] by rcases act with rfl | rfl <;> rfl, List.append_nil]
    exact h.congr rfl rfl fun hl => ⟨hl, rfl⟩
  | refuse err pc | pass pc running | panic pc closed | accept pc =>
    rw [show LinkRun.sentBy _ _ _ = [] by simp [LinkRun.sentBy, setPush, pc], List.append_nil]
    exact h.congr rfl rfl fun hl => ⟨hl, rfl⟩
  | @enqueue i out pc =>
    rw [show LinkRun.sentBy _ _ _ = [(i, out)] by simp [LinkRun.sentBy, setPush, pc]]
    refine ⟨room_of_pushStep h.room hs, h.encoded.trans (List.prefix_append _ _), fun hl => ?_⟩
    rw [h.all hl, List.append_assoc]
    show s.encoded ++ (s.inHand ++ s.sendChan.buf ++ _) = s.encoded ++ (s.inHand ++ (_ ++ _))
    rw [List.append_assoc]
  | @handOff i out loop pc =>
    -- a channel that hands off holds nothing, so the pack is not put before another
    have hbuf := buf_of_handOff h.room hs
    have hall := h.all (by rw [loop]; nofun)
    rw [pending, inHand_of_select loop, hbuf, List.append_nil, List.append_nil] at hall
    rw [show LinkRun.sentBy _ _ _ = [(i, out)] by simp [LinkRun.sentBy, setPush, pc]]
    refine ⟨h.room, h.encoded.trans (List.prefix_append _ _), fun _ => ?_⟩
    show accepted ++ [(i, out)] = s.encoded ++ ([(i, out)] ++ s.sendChan.buf)
    rw [hbuf, List.append_nil, hall]
  | @recv item rest pc buf =>
    have hall := h.all (by rw [pc]; nofun)
    rw [pending, inHand_of_select pc, buf] at hall
    have hroom := h.room
    rw [buf] at hroom
    rw [show LinkRun.sentBy _ _ _ = [] from rfl, List.append_nil]
    exact ⟨Nat.le_of_succ_le hroom, h.encoded, fun _ => hall⟩
  | exit ctxDone pc act =>
    rw [show LinkRun.sentBy _ _ _ = [] by rcases act with rfl | rfl <;> rfl, List.append_nil]
    exact h.exited ctxDone
  | _ => cases ha

theorem encoded_of_queue (ha : LinkRun.ofQueue a = true) (hs : s.step a = some s') :
    s'.encoded = s.encoded := by
  cases step_effect hs with
  | encode pc => cases ha
  | _ => rfl

end WorkerRun

/-! ## From the queue to the lane -/

/-- The packs on the lane, and the one that comes next, are those passed to `Encode`. -/
structure Forwards (w : WorkerEnd) (log : List Sent) : Prop where
  order : w.worker.InOrder w.accepted
  carries : w.worker.encoded.map Prod.snd =
    (log.tail ++ (w.encoder.bind EncodePc.header?).toList).map Sent.pack

section Forwards

variable {c : LinkConf} {s s' : LinkRun} {b : WorkerEndAct}

/-- Each step of `Encode` in `sendLoop` leaves no header to be written. -/
theorem Forwards.encoded {w : WorkerEnd} {log log' : List Sent} {pc : EncodePc}
    (h : Forwards w log) (hne : log ≠ []) (was : w.encoder = some pc)
    (hlog : log' = log ++ pc.header?.toList) :
    w.worker.encoded.map Prod.snd = log'.tail.map Sent.pack := by
  rw [hlog, List.tail_append_of_ne_nil hne, h.carries, was]
  rfl

/-- **What the server does with the packs of its queue.** -/
theorem Forwards.step (h : Forwards s.server s.s2c.log) (hlink : s.Downlink)
    (hfilter : ∀ n pack, c.writeFilter n pack = .ok pack)
    (hfits : ∀ e ∈ s.serverHeader b, Fits e.bytes) (he : LinkRun.ServerEffect c s b s') :
    Forwards s'.server s'.s2c.log := by
  cases he with
  | @workEncode pc ss lane next was step =>
    rw [LinkRun.serverHeader, was] at hfits
    obtain ⟨hlog, -⟩ := hlink.sends.workEncode hlink.ok was hfits step
    have htail : lane.log.tail = s.s2c.log.tail := by
      have hstage := hlink.sends.stage_at was
      rw [hlog]
      cases pc with
      | header e => rw [hstage.1]; rfl
      | body e | flush => exact congrArg List.tail (List.append_nil _)
    refine ⟨h.order, ?_⟩
    show _ = (lane.log.tail ++ _).map Sent.pack
    rw [htail]
    exact h.carries
  | run was loop =>
    obtain ⟨-, hencoder⟩ := hlink.sends.not_running (by simp [was])
    have hcarries := h.carries
    rw [hencoder] at hcarries
    refine ⟨h.order.congr rfl rfl fun _ => ⟨by simp [loop], ?_⟩, hcarries⟩
    rw [WorkerRun.inHand, WorkerRun.inHand, loop]
  | queue ofQueue step =>
    refine ⟨h.order.queue ofQueue step, ?_⟩
    show List.map Prod.snd (WorkerRun.encoded _) = _
    rw [WorkerRun.encoded_of_queue ofQueue step]
    exact h.carries
  | @encrypt n item out bytes loop encoder filter encrypt =>
    have hcarries := h.carries
    rw [encoder] at hcarries
    rw [hfilter] at filter
    cases filter
    refine ⟨h.order.encode loop, ?_⟩
    show (s.server.worker.encoded ++ [item]).map Prod.snd = (s.s2c.log.tail ++ [_]).map Sent.pack
    rw [List.map_append, hcarries]
    simp
  | writeFails loop encoder =>
    have hcarries := h.carries
    rw [encoder] at hcarries
    exact ⟨h.order.exited true, hcarries⟩
  | @encodeNext pc pc' lane encoder step =>
    have hne := (hlink.sends.stage_at (hlink.sends.encoder (by simp [encoder]))).1
    rw [LinkRun.serverHeader, encoder] at hfits
    obtain ⟨hlog, -, -, ⟨_, ⟨⟩, hnext, -⟩ | ⟨⟨⟩, -⟩⟩ :=
      hlink.sends.encodes hlink.ok encoder hfits step
    refine ⟨h.order, ?_⟩
    show _ = (lane.log.tail ++ pc'.header?.toList).map Sent.pack
    rw [hnext, Option.toList_none, List.append_nil]
    exact h.encoded hne encoder hlog
  | @encodeEnds pc lane next loop ctxDone encoder step ended =>
    have hne := (hlink.sends.stage_at (hlink.sends.encoder (by simp [encoder]))).1
    rw [LinkRun.serverHeader, encoder] at hfits
    obtain ⟨hlog, -⟩ := hlink.sends.encodes hlink.ok encoder hfits step
    have hcarries := h.encoded hne encoder hlog
    rw [← List.append_nil lane.log.tail] at hcarries
    rcases ended with ⟨-, rfl, item, hloop⟩ | ⟨-, rfl⟩
    · refine ⟨h.order.congr rfl rfl fun _ => ⟨by simp [hloop], ?_⟩, hcarries⟩
      rw [WorkerRun.inHand, WorkerRun.inHand, hloop]
    · exact ⟨h.order.exited ctxDone, hcarries⟩
  | _ => exact ⟨h.order, h.carries⟩

end Forwards

/-! ## From the lane to `receivedPackChan` -/

/-- The packs that were decrypted without an error. -/
def openedPacks (opened : List Opened) : List Pack := opened.filterMap fun o => o.result.toOption

/-- The pack that `receiveLoop` has decrypted and not sent yet. -/
def ReceivePc.inHand : ReceivePc → List Pack
  | .deliver pack => [pack]
  | _ => []

/-- The packs that were decrypted have been sent on `receivedPackChan`, or are in hand. -/
def Received (c : Client) (opened : List Opened) : Prop :=
  openedPacks opened = c.received ++ c.receive.inHand

section Received

variable {s s' : LinkRun} {a : ClientAct}

theorem openedPacks_concat (opened : List Opened) (bytes : Pack) (ss : Cryptor)
    (r : Except Err Pack) :
    openedPacks (opened ++ [⟨bytes, ss, r⟩]) =
      openedPacks opened ++ (ReceivePc.opened r).inHand := by
  rw [openedPacks, List.filterMap_append]
  cases r <;> rfl

/-- **What the client does with the frames of its lane.** -/
theorem Received.step (h : Received s.client s.s2c.opened) (hlink : s.Downlink)
    (he : LinkRun.ClientEffect s a s') : Received s'.client s'.s2c.opened := by
  have hfirst (hpc : ¬(s.client.dialog = .close ∨ s.client.dialog = .waiting)) :
      s.client.receive = .notStarted := by
    by_contra hr
    exact hpc (hlink.hears.receive hr)
  cases he with
  | dialogDecode was decode =>
    obtain ⟨hgot, hopened⟩ := hlink.hears.stage_at was
    obtain ⟨-, -, -, hopened'⟩ := hlink.ok.decode_first hgot decode
    rw [hopened] at h
    exact (congrArg openedPacks hopened').trans h
  | startLoop was =>
    have hr := hfirst (by simp [was])
    rw [Received, hr] at h
    exact h
  | receiveDecode was decode =>
    have hgot := (hlink.hears.looping (by rw [was]; nofun)).1
    obtain ⟨-, -, -, hopened⟩ := hlink.ok.loopDecode hgot decode
    rw [Received, was] at h
    exact (congrArg openedPacks hopened).trans h
  | @receiveDecrypt r lane was decrypt =>
    obtain ⟨bytes, -, hopened, -⟩ := hlink.ok.loopDecrypt decrypt
    rw [Received, was] at h
    show openedPacks lane.opened = s.client.received ++ (ReceivePc.opened r).inHand
    rw [hopened, openedPacks_concat, h]
    exact congrArg (· ++ _) (List.append_nil _)
  | receiveExit was =>
    rw [Received, was] at h
    exact h
  | deliver was =>
    rw [Received, was] at h
    exact h.trans (List.append_nil _).symm
  | _ => exact h

end Received

/-! ## Delivery -/

/-- **When the sessions match, the packs that were decrypted are the first ones that were sent.** -/
theorem openedPacks_prefix {l : Lane} {sender receiver : Option Cryptor}
    (h : LaneAgrees l sender receiver)
    (hmatch : ∀ ss ∈ sender, ∀ ss' ∈ receiver, ss.Matches ss') :
    openedPacks l.opened <+: l.log.tail.map Sent.pack := by
  have hresults : l.opened.map Opened.result <+: l.log.tail.map fun e => .ok e.pack := by
    rw [List.prefix_iff_getElem?]
    intro k hk
    rw [List.length_map] at hk
    obtain ⟨hsession, e, he, -, hresult⟩ := h.later k _ (List.getElem?_eq_getElem hk)
    rw [← List.getElem?_tail] at he
    obtain ⟨-, hsender, -⟩ := h.speaks.later e (List.mem_of_getElem? he)
    have hok := hresult (hmatch _ hsender.symm _ hsession.symm)
    rw [List.getElem?_map, he, List.getElem_map, hok]
    rfl
  have hpacks := hresults.filterMap Except.toOption
  rw [List.filterMap_map, List.filterMap_map] at hpacks
  rwa [show (Except.toOption ∘ fun e : Sent => (.ok e.pack : Except Err Pack)) =
    fun e => some e.pack from rfl, List.filterMap_eq_map'] at hpacks

namespace LinkRun

/-- What `Auth` and `AuthFunc` have returned matches. -/
def SessionsMatch (s : LinkRun) : Prop :=
  ∀ ss ∈ s.server.negotiated, ∀ ss' ∈ s.client.negotiated, ss.Matches ss'

/-- The packs on `receivedPackChan` are a prefix of those on `sendChan`. -/
def DeliversInOrder (s : LinkRun) : Prop :=
  s.SessionsMatch → s.client.received <+: s.server.accepted.map Prod.snd

/-- Everything between `sendChan` and `receivedPackChan`. -/
structure Pipeline (s : LinkRun) : Prop where
  link : s.Downlink
  forwards : Forwards s.server s.s2c.log
  received : Received s.client s.s2c.opened

variable {c : LinkConf} {s s' : LinkRun} {a : LinkAct}

theorem pipeline_init (c : LinkConf) : (init c).Pipeline :=
  ⟨downlink_init c, ⟨WorkerRun.inOrder_init _, rfl⟩, rfl⟩

theorem Pipeline.step (h : s.Pipeline) (hfilter : ∀ n pack, c.writeFilter n pack = .ok pack)
    (hfits : s.ServerFits a) (hs : s.step c a = some s') : s'.Pipeline := by
  refine ⟨h.link.step hfits hs, ?_, ?_⟩
  · cases a with
    | client a =>
      obtain ⟨hserver, hlog, -⟩ := (clientStep_effect hs).frame
      rw [hserver, hlog]
      exact h.forwards
    | server b => exact h.forwards.step h.link hfilter hfits (serverStep_effect hs)
  · cases a with
    | client a => exact h.received.step h.link (clientStep_effect hs)
    | server b =>
      obtain ⟨hclient, -, -, hopened⟩ := (serverStep_effect hs).frame
      rw [hclient, hopened]
      exact h.received

theorem Pipeline.deliversInOrder (h : s.Pipeline) : s.DeliversInOrder := by
  intro hmatch
  have hagrees := laneAgrees_of_ok h.link.ok h.link.sends.speaks h.link.hears.sessions
  calc s.client.received
    _ <+: openedPacks s.s2c.opened := h.received ▸ List.prefix_append _ _
    _ <+: s.s2c.log.tail.map Sent.pack := openedPacks_prefix hagrees hmatch
    _ <+: s.server.worker.encoded.map Prod.snd := by
      rw [h.forwards.carries, List.map_append]
      exact List.prefix_append _ _
    _ <+: s.server.accepted.map Prod.snd := h.forwards.order.encoded.map _

/--
**In every state of every run, the packs that were sent on the dialog's `receivedPackChan` are a
prefix of the packs that were sent on the worker's `sendChan`.** The length of what the server
encodes has to fit into the header, as that of a legal pack does (`Legal.fits`).
-/
theorem received_prefix_accepted (c : LinkConf)
    (hfilter : ∀ n pack, c.writeFilter n pack = .ok pack) (acts : List LinkAct)
    (hfits : EachStep (step c) (fun s a _ => s.ServerFits a) (init c) acts) :
    EachState (step c) DeliversInOrder (init c) acts :=
  eachState_of_inv (fun _ _ _ hi hc hs => hi.step hfilter hc hs)
    (fun _ hi => hi.deliversInOrder) (pipeline_init c) hfits

/-- Two `Push` calls overtake one another; both packs are encoded, and one is received. -/
def overtakingActs : List LinkAct :=
  [[.server (.worker (.push 0 [4])), .server (.worker (.push 1 [5])),
      .server (.worker (.pushStep 0))],
    List.replicate 2 (.server (.worker (.pushStep 1))),
    [.server (.worker .loopRecv), .server (.encrypt 0), .server (.worker (.pushStep 0))],
    List.replicate 3 (.server .encode),
    [.server (.worker .loopRecv), .server (.encrypt 0)],
    List.replicate 3 (.server .encode),
    [.client (.receiveDecode ({}, World.bare))],
    List.replicate 2 (.client (.receive true))].flatten

theorem received_of_overtaking :
    (tagging.Matches tagging ∧
      ∃ s, run (step (bareConf .tcp)) (init (bareConf .tcp)) (handshakeActs ++ overtakingActs) =
          some s ∧
        s.server.negotiated = some tagging ∧ s.client.negotiated = some tagging ∧
        s.server.accepted = [(1, [5]), (0, [4])] ∧ s.client.received = [[5]]) ∧
      EachState (step (bareConf .tcp)) DeliversInOrder (init (bareConf .tcp))
        (handshakeActs ++ overtakingActs) := by
  refine ⟨⟨fun n pack out h => ?_, ?_⟩, ?_⟩
  · cases h
    simp [tagging, newCryptor]
  · exact ⟨_, rfl, rfl, rfl, rfl, rfl⟩
  · exact received_prefix_accepted (bareConf .tcp) (fun _ _ => rfl)
      (handshakeActs ++ overtakingActs) (by decide +kernel)

end LinkRun

end FabricaNet.Internal
