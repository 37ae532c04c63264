import FabricaNet.Internal.Link

/-!
# How far the two ends are

What a goroutine of one end does next says what that end has put on its lane and what it has read
from the other. Each end is looked at twice, as the sender on one lane (`ClientSends`,
`ServerSends`) and as the receiver on the other (`ClientHears`, `ServerHears`), so that a step of
one end leaves the two statements about the other alone.

A lane is ok (`Lane.Ok`) as long as the calls of `Encode` of its sender keep apart. On the server
they always do: `sendLoop` is started after the handshake has returned, and it is the only one that
calls `Encode` from then on. On the client it is a condition (`ClientKeepsApart`): a header is
written only when no other goroutine is in `Encode`.
-/

namespace FabricaNet.Frame

open Go Xnet

/-- A pack of the handshake, which is encoded as it is. -/
def Sent.Plain (e : Sent) : Prop := e.app = false ∧ e.bytes = e.pack

/-- An application pack that is encrypted under the session. -/
def Sent.Secret (e : Sent) (ss : Option Cryptor) : Prop :=
  e.app = true ∧ some e.session = ss ∧ ∃ n, e.session.encrypt n e.pack = .ok e.bytes

/-- The first pack is one of the handshake, and the others are encrypted under the session. -/
structure Speaks (log : List Sent) (ss : Option Cryptor) : Prop where
  first : ∀ e, log.head? = some e → e.Plain
  later : ∀ e ∈ log.tail, e.Secret ss

variable {log : List Sent} {ss ss' : Option Cryptor} {e : Sent}

theorem speaks_nil : Speaks [] ss := ⟨nofun, nofun⟩

theorem speaks_singleton (h : e.Plain) : Speaks [e] ss := by
  refine ⟨?_, nofun⟩
  rintro e' ⟨⟩
  exact h

theorem Speaks.concat (h : Speaks log ss) (hne : log ≠ []) (he : e.Secret ss) :
    Speaks (log ++ [e]) ss := by
  constructor
  · intro e' he'
    rw [List.head?_append_of_ne_nil _ hne] at he'
    exact h.first e' he'
  · intro e' he'
    rw [List.tail_append_of_ne_nil hne] at he'
    rcases List.mem_append.mp he' with he' | he'
    · exact h.later e' he'
    · rw [List.mem_singleton.mp he']
      exact he

/-- As long as nothing is encrypted the session may change. -/
theorem Speaks.change (h : Speaks log ss) (htail : log.tail = []) : Speaks log ss' := by
  refine ⟨h.first, ?_⟩
  rw [htail]
  nofun

end FabricaNet.Frame

namespace FabricaNet.Internal

open Go Xnet Lib FabricaNet.Frame

/-! ## Calls of `Encode` -/

/-- The call of `Encode` that `start` is in. -/
def DialogPc.encode? : DialogPc → Option EncodePc
  | .encoding pc => some pc
  | _ => none

/-- The call of `Encode` that an application goroutine is in. -/
def AppPc.encode? : AppPc → Option EncodePc
  | .encoding pc => some pc
  | _ => none

/-- The call of `Encode` that the handshake is in. -/
def HandshakePc.encode? : HandshakePc → Option EncodePc
  | .encoding pc _ => some pc
  | _ => none

/-- The calls of `Encode` in application goroutines that have written their header. -/
def begun (apps : List AppPc) : List EncodePc :=
  apps.flatMap fun pc => (pc.encode?.bind EncodePc.begun?).toList

/-- The calls of `Encode` that have written their header. -/
def Client.unfinished (c : Client) : List EncodePc :=
  (c.dialog.encode?.bind EncodePc.begun?).toList ++ begun c.apps

/-- The calls of `Encode` that the goroutines of the client are in. -/
def Client.encodes (c : Client) : List EncodePc :=
  c.dialog.encode?.toList ++ c.apps.flatMap fun pc => pc.encode?.toList

/-- The call of `Encode` that has written its header. -/
def WorkerEnd.unfinished (w : WorkerEnd) : Option EncodePc :=
  (w.work.encode?.bind EncodePc.begun?).or (w.encoder.bind EncodePc.begun?)

namespace LinkRun

/-- The pack whose header a step of the client writes. -/
def clientHeader (s : LinkRun) : ClientAct → Option Sent
  | .dialog true _ => s.client.dialog.encode?.bind EncodePc.header?
  | .appStep i true _ => (s.client.apps[i]?.bind AppPc.encode?).bind EncodePc.header?
  | _ => none

/-- The pack whose header a step of the server writes. -/
def serverHeader (s : LinkRun) : WorkerEndAct → Option Sent
  | .work true => s.server.work.encode?.bind EncodePc.header?
  | .encode => s.server.encoder.bind EncodePc.header?
  | _ => none

end LinkRun

/-! ## The client as a sender -/

/-- What `start` has put on the lane. -/
def Client.SendStage (c : Client) (log : List Sent) : DialogPc → Prop
  | .handshakePack | .check _ | .encrypt _ => log = [] ∧ c.session = newUnCryptor
  | .encoding (.header e) => log = [] ∧ e.Plain
  | .encoding _ | .decode | .authFunc _ => log ≠ [] ∧ log.tail = []
  | .startLoop | .close | .waiting => log ≠ [] ∧ c.negotiated = some c.session
  | .failed => True

/-- An application goroutine that is past `WaitAuthed`. -/
def Client.AppStage (c : Client) : AppPc → Prop
  | .wait _ | .returned => True
  | .encoding (.header e) => c.authed = true ∧ e.Secret c.negotiated
  | _ => c.authed = true

structure ClientSends (c : Client) (log : List Sent) : Prop where
  speaks : Speaks log c.negotiated
  stage : c.SendStage log c.dialog
  authed : c.authed = true → c.dialog = .waiting
  apps : ∀ pc ∈ c.apps, c.AppStage pc

/-! ## The client as a receiver -/

/-- What `start` has read from the lane. -/
def Client.HearStage (c : Client) (got : List Pack) (opened : List Opened) : DialogPc → Prop
  | .handshakePack | .check _ | .encrypt _ | .encoding _ | .decode => got = [] ∧ opened = []
  | .authFunc _ => got ≠ [] ∧ opened = []
  | .startLoop | .close | .waiting => got ≠ [] ∧ c.negotiated = some c.session
  | .failed => True

structure ClientHears (c : Client) (got : List Pack) (opened : List Opened) : Prop where
  sessions : ∀ o ∈ opened, some o.session = c.negotiated
  stage : c.HearStage got opened c.dialog
  receive : c.receive ≠ .notStarted → c.dialog = .close ∨ c.dialog = .waiting

/-! ## The server as a sender -/

/-- What the handshake has put on the lane. -/
def WorkerEnd.SendStage (w : WorkerEnd) (log : List Sent) : HandshakePc → Prop
  | .decode | .auth _ => log = []
  | .encoding (.header e) ss => log = [] ∧ e.Plain ∧ w.negotiated = some ss
  | .encoding _ ss | .setSession ss => log ≠ [] ∧ w.negotiated = some ss
  | .ready | .running => log ≠ [] ∧ w.negotiated = some w.session
  | .failed => True

structure ServerSends (w : WorkerEnd) (log : List Sent) : Prop where
  speaks : Speaks log w.negotiated
  stage : w.SendStage log w.work
  loop : w.worker.loop ≠ .notStarted → w.work = .running
  encoder : w.encoder ≠ none → w.work = .running
  header : ∀ e, w.encoder = some (.header e) → e.Secret w.negotiated

/-! ## The server as a receiver -/

/-- What the handshake has read from the lane. -/
def WorkerEnd.HearStage (w : WorkerEnd) (got : List Pack) (opened : List Opened) :
    HandshakePc → Prop
  | .decode => got = [] ∧ opened = []
  | .auth _ => got ≠ [] ∧ opened = []
  | .encoding _ ss | .setSession ss => got ≠ [] ∧ w.negotiated = some ss
  | .ready | .running => got ≠ [] ∧ w.negotiated = some w.session
  | .failed => True

structure ServerHears (w : WorkerEnd) (got : List Pack) (opened : List Opened) : Prop where
  sessions : ∀ o ∈ opened, some o.session = w.negotiated
  stage : w.HearStage got opened w.work
  read : w.read ≠ .notStarted → w.work = .running

theorem clientSends_init : ClientSends Client.init [] :=
  ⟨speaks_nil, ⟨rfl, rfl⟩, nofun, nofun⟩

theorem clientHears_init : ClientHears Client.init [] [] :=
  ⟨nofun, ⟨rfl, rfl⟩, fun h => absurd rfl h⟩

theorem serverSends_init (n : Nat) : ServerSends (WorkerEnd.init n) [] :=
  ⟨speaks_nil, rfl, fun h => absurd rfl h, fun h => absurd rfl h, nofun⟩

theorem serverHears_init (n : Nat) : ServerHears (WorkerEnd.init n) [] [] :=
  ⟨nofun, ⟨rfl, rfl⟩, fun h => absurd rfl h⟩

namespace LinkRun

variable {c : LinkConf} {s s' : LinkRun} {a : ClientAct} {b : WorkerEndAct}
  {mid : Option EncodePc}

/-! ## What a step of one end leaves alone -/

theorem ClientEffect.frame (h : ClientEffect s a s') :
    s'.server = s.server ∧ s'.s2c.log = s.s2c.log ∧ s'.c2s.got = s.c2s.got ∧
      s'.c2s.opened = s.c2s.opened := by
  cases h with
  | dialogEncode was step | appEncode was step =>
    obtain ⟨hgot, hopened⟩ := Lane.encodeStep_frame step
    exact ⟨rfl, rfl, hgot, hopened⟩
  | dialogDecode pc decode => exact ⟨rfl, Lane.log_of_decode decode, rfl, rfl⟩
  | receiveDecode pc decode => exact ⟨rfl, Lane.log_of_loopDecode decode, rfl, rfl⟩
  | receiveDecrypt pc decrypt => exact ⟨rfl, Lane.log_of_loopDecrypt decrypt, rfl, rfl⟩
  | _ => exact ⟨rfl, rfl, rfl, rfl⟩

theorem ServerEffect.frame (h : ServerEffect c s b s') :
    s'.client = s.client ∧ s'.c2s.log = s.c2s.log ∧ s'.s2c.got = s.s2c.got ∧
      s'.s2c.opened = s.s2c.opened := by
  cases h with
  | workEncode was step | encodeNext encoder step | encodeEnds encoder step ended =>
    obtain ⟨hgot, hopened⟩ := Lane.encodeStep_frame step
    exact ⟨rfl, rfl, hgot, hopened⟩
  | workDecode pc decode => exact ⟨rfl, Lane.log_of_decode decode, rfl, rfl⟩
  | readDecode pc decode => exact ⟨rfl, Lane.log_of_loopDecode decode, rfl, rfl⟩
  | readDecrypt pc decrypt => exact ⟨rfl, Lane.log_of_loopDecrypt decrypt, rfl, rfl⟩
  | _ => exact ⟨rfl, rfl, rfl, rfl⟩

end LinkRun

/-! ## Steps of the client -/

section ClientSteps

variable {s s' : LinkRun} {a : ClientAct} {c c' : Client} {mid : Option EncodePc}
  {log : List Sent} {got : List Pack} {opened : List Opened} {ss : Cryptor} {pc pc' : DialogPc}
  {i : Nat} {apc apc' : AppPc}

theorem DialogPc.Goes.begun?_eq (h : pc.Goes ss pc') :
    pc.encode?.bind EncodePc.begun? = none ∧ pc'.encode?.bind EncodePc.begun? = none := by
  cases h <;> exact ⟨rfl, rfl⟩

/-- `receiveLoop` is not started yet. -/
theorem DialogPc.Goes.ne (h : pc.Goes ss pc') : ¬(pc = .close ∨ pc = .waiting) := by
  cases h <;> simp

theorem DialogPc.Goes.hearStage (h : pc.Goes c.session pc') (hs : c.HearStage got opened pc) :
    c.HearStage got opened pc' := by
  cases h with
  | packFails | checkFails | encryptFails | decodeFails => trivial
  | pack | check | encrypt => exact hs

theorem DialogPc.Goes.sendStage (h : pc.Goes c.session pc') (hs : c.SendStage log pc) :
    c.SendStage log pc' := by
  cases h with
  | packFails | checkFails | encryptFails | decodeFails => trivial
  | pack | check => exact hs
  | encrypt hbytes =>
    -- under the session that a dialog has at first a pack is encrypted as itself
    obtain ⟨hlog, hsession⟩ := hs
    rw [hsession] at hbytes
    cases hbytes
    exact ⟨hlog, rfl, rfl⟩

theorem AppPc.Goes.begun?_eq (h : apc.Goes c apc') :
    apc.encode?.bind EncodePc.begun? = none ∧ apc'.encode?.bind EncodePc.begun? = none := by
  cases h <;> exact ⟨rfl, rfl⟩

theorem AppPc.Goes.appStage (h : apc.Goes c apc') (hs : c.AppStage apc)
    (hsession : c.authed = true → c.negotiated = some c.session) : c.AppStage apc' := by
  cases h with
  | authed pack hauthed => exact hauthed
  | check pack => exact hs
  | encrypt hbytes => exact ⟨hs, rfl, (hsession hs).symm, _, hbytes⟩
  | checkFails | encryptFails => trivial

theorem Client.AppStage.congr (h : c.AppStage apc)
    (hc : c.authed = true → c'.authed = true ∧ c'.negotiated = c.negotiated) : c'.AppStage apc := by
  cases apc with
  | wait pack | returned => trivial
  | check pack | encrypt pack => exact (hc h).1
  | encoding pc =>
    cases pc with
    | header e =>
      obtain ⟨hauthed, hsecret⟩ := hc h.1
      exact ⟨hauthed, hsecret ▸ h.2⟩
    | body e | flush => exact (hc h).1

/-- One application goroutine among the others. -/
theorem begun_set {apps : List AppPc} (h : apps[i]? = some apc) :
    ∃ l r, begun apps = l ++ (apc.encode?.bind EncodePc.begun?).toList ++ r ∧
      ∀ apc', begun (apps.set i apc') = l ++ (apc'.encode?.bind EncodePc.begun?).toList ++ r := by
  obtain ⟨hi, rfl⟩ := List.getElem?_eq_some_iff.mp h
  refine ⟨begun (apps.take i), begun (apps.drop (i + 1)), ?_, fun apc' => ?_⟩
  · conv => lhs; rw [← List.take_append_drop i apps, List.drop_eq_getElem_cons hi]
    rw [begun, List.flatMap_append, List.flatMap_cons, List.append_assoc]
    rfl
  · rw [List.set_eq_take_append_cons_drop, if_pos hi]
    rw [begun, List.flatMap_append, List.flatMap_cons, List.append_assoc]
    rfl

theorem ClientHears.stage_at (h : ClientHears c got opened) (hpc : c.dialog = pc) :
    c.HearStage got opened pc :=
  hpc ▸ h.stage

/-- While `receiveLoop` runs, the reply has been read and the session is the negotiated one. -/
theorem ClientHears.looping (h : ClientHears c got opened) (hr : c.receive ≠ .notStarted) :
    got ≠ [] ∧ c.negotiated = some c.session := by
  rcases h.receive hr with hpc | hpc
  · exact h.stage_at hpc
  · exact h.stage_at hpc

/-- A step of `receiveLoop`. -/
theorem ClientHears.loop (h : ClientHears c got opened) (hr : c.receive ≠ .notStarted)
    {got' : List Pack} {opened' : List Opened} (hgot : got' ≠ [])
    (hsessions : ∀ o ∈ opened', some o.session = c.negotiated) (rpc : ReceivePc) :
    ClientHears { c with receive := rpc } got' opened' := by
  refine ⟨hsessions, ?_, fun _ => h.receive hr⟩
  show c.HearStage got' opened' c.dialog
  have hsession := (h.looping hr).2
  rcases h.receive hr with hpc | hpc
  · rw [hpc]; exact ⟨hgot, hsession⟩
  · rw [hpc]; exact ⟨hgot, hsession⟩

/-- **The client as a receiver, after a step of its own.** -/
theorem ClientHears.step (h : ClientHears s.client s.s2c.got s.s2c.opened) (hok : s.s2c.Ok mid)
    (he : LinkRun.ClientEffect s a s') :
    ClientHears s'.client s'.s2c.got s'.s2c.opened ∧ s'.s2c.Ok mid := by
  cases he with
  | dialog goes =>
    exact ⟨⟨h.sessions, goes.hearStage h.stage, fun hr => absurd (h.receive hr) goes.ne⟩, hok⟩
  | @dialogEncode n pc lane next was step =>
    refine ⟨⟨h.sessions, ?_, fun hr => absurd (h.receive hr) (by simp [was])⟩, hok⟩
    cases next with
    | next pc' | done => exact h.stage_at was
    | failed => trivial
  | @dialogDecode w reply lane was decode =>
    obtain ⟨hok', -, hgot, hopened⟩ := hok.decode_first (h.stage_at was).1 decode
    have hne : lane.got ≠ [] := by rw [hgot]; nofun
    refine ⟨⟨?_, ⟨hne, hopened⟩, fun hr => absurd (h.receive hr) (by simp [was])⟩, hok'⟩
    show ∀ o ∈ lane.opened, _
    rw [hopened]
    nofun
  | authFunc ss was =>
    -- nothing has been decrypted under the session that is replaced
    obtain ⟨hgot, hopened⟩ := h.stage_at was
    refine ⟨⟨?_, ⟨hgot, rfl⟩, fun hr => absurd (h.receive hr) (by simp [was])⟩, hok⟩
    show ∀ o ∈ s.s2c.opened, _
    rw [hopened]
    nofun
  | authFails ss was =>
    exact ⟨⟨h.sessions, trivial, fun hr => absurd (h.receive hr) (by simp [was])⟩, hok⟩
  | startLoop was => exact ⟨⟨h.sessions, h.stage_at was, fun _ => Or.inl rfl⟩, hok⟩
  | close was => exact ⟨⟨h.sessions, h.stage_at was, fun _ => Or.inr rfl⟩, hok⟩
  | receiveDecode was decode =>
    have hr : s.client.receive ≠ .notStarted := by rw [was]; nofun
    obtain ⟨hok', -, hgot, hopened⟩ := hok.loopDecode (h.looping hr).1 decode
    exact ⟨h.loop hr hgot (fun o ho => h.sessions o (hopened ▸ ho)) _, hok'⟩
  | @receiveDecrypt r lane was decrypt =>
    have hr : s.client.receive ≠ .notStarted := by rw [was]; nofun
    obtain ⟨hgot, hsession⟩ := h.looping hr
    obtain ⟨bytes, -, hopened, hok', -, hgot'⟩ := hok.loopDecrypt decrypt
    refine ⟨h.loop hr (hgot' ▸ hgot) ?_ _, hok'⟩
    show ∀ o ∈ lane.opened, _
    rw [hopened]
    exact List.forall_mem_append.mpr ⟨h.sessions, List.forall_mem_singleton.mpr hsession.symm⟩
  | receiveExit was | deliver was =>
    have hr : s.client.receive ≠ .notStarted := by rw [was]; nofun
    exact ⟨⟨h.sessions, h.stage, fun _ => h.receive hr⟩, hok⟩
  | spawn pack | take inbox | app was goes | appEncode was step =>
    exact ⟨⟨h.sessions, h.stage, h.receive⟩, hok⟩

theorem Client.unfinished_congr {pcs : List EncodePc} (hpcs : c.unfinished = pcs)
    (h : c.dialog.encode? = none) (h' : c'.dialog.encode? = none) (happs : c'.apps = c.apps) :
    c'.unfinished = pcs := by
  rw [← hpcs, Client.unfinished, Client.unfinished, h, h', happs]

theorem ClientSends.stage_at (h : ClientSends c log) (hpc : c.dialog = pc) : c.SendStage log pc :=
  hpc ▸ h.stage

theorem ClientSends.not_authed (h : ClientSends c log) (hpc : c.dialog ≠ .waiting)
    (hauthed : c.authed = true) : False :=
  hpc (h.authed hauthed)

/-- An application goroutine that is in `Encode`. -/
theorem ClientSends.encoding (h : ClientSends c log) {pc : EncodePc}
    (hpc : c.apps[i]? = some (.encoding pc)) : c.authed = true ∧ c.dialog = .waiting := by
  have hstage := h.apps _ (List.mem_of_getElem? hpc)
  have hauthed : c.authed = true := by
    cases pc with
    | header e => exact hstage.1
    | body e | flush => exact hstage
  exact ⟨hauthed, h.authed hauthed⟩

/-- One application goroutine takes a step. -/
theorem ClientSends.setApp (h : ClientSends c log) (hpc : c.AppStage apc') :
    ClientSends { c with apps := c.apps.set i apc' } log := by
  refine ⟨h.speaks, h.stage, h.authed, fun apc ha => ?_⟩
  rcases List.mem_or_eq_of_mem_set ha with ha | rfl
  · exact h.apps apc ha
  · exact hpc

/-- A step of `Encode` in `start`. -/
theorem ClientSends.dialogEncode (h : ClientSends c log) {l l' : Lane} {pc : EncodePc}
    {next : EncodeNext} {mid mid' : Option EncodePc} (hlog : l.log = log)
    (was : c.dialog = .encoding pc) (hmid : c.unfinished = mid.toList)
    (henc : Lane.Encodes l l' mid pc next mid') :
    ClientSends { c with dialog := LinkRun.dialogAfter next } l'.log ∧
      Client.unfinished { c with dialog := LinkRun.dialogAfter next } = mid'.toList := by
  have hstage := h.stage_at was
  have hunfinished : pc.begun?.toList ++ begun c.apps = mid.toList := by
    rw [← hmid, Client.unfinished, was]
    rfl
  have hauthed := h.not_authed (by simp [was])
  cases henc with
  | header e hl =>
    rw [hl, hlog, hstage.1]
    refine ⟨⟨speaks_singleton hstage.2, ⟨nofun, rfl⟩, fun ha => (hauthed ha).elim, h.apps⟩, ?_⟩
    exact congrArg ([.body e] ++ ·) hunfinished
  | body e hl =>
    rw [hl, hlog]
    refine ⟨⟨h.speaks, hstage, fun ha => (hauthed ha).elim, h.apps⟩, ?_⟩
    exact congrArg ([.flush] ++ ·) (List.cons.inj hunfinished).2
  | flush hl =>
    rw [hl, hlog]
    exact ⟨⟨h.speaks, hstage, fun ha => (hauthed ha).elim, h.apps⟩, (List.cons.inj hunfinished).2⟩

/-- A step of `Encode` in an application goroutine. -/
theorem ClientSends.appEncode (h : ClientSends c log) {l l' : Lane} {pc : EncodePc}
    {next : EncodeNext} {mid mid' : Option EncodePc} (hlog : l.log = log)
    (was : c.apps[i]? = some (.encoding pc)) (hmid : c.unfinished = mid.toList)
    (henc : Lane.Encodes l l' mid pc next mid') :
    ClientSends { c with apps := c.apps.set i (LinkRun.appAfter next) } l'.log ∧
      Client.unfinished { c with apps := c.apps.set i (LinkRun.appAfter next) } = mid'.toList := by
  obtain ⟨hauthed, hwaiting⟩ := h.encoding was
  obtain ⟨left, right, hbegun, hset⟩ := begun_set was
  have hunfinished : left ++ pc.begun?.toList ++ right = mid.toList := by
    rw [← hmid, Client.unfinished, hwaiting, hbegun]
    rfl
  have hafter (apc' : AppPc) : Client.unfinished { c with apps := c.apps.set i apc' } =
      left ++ (apc'.encode?.bind EncodePc.begun?).toList ++ right := by
    rw [← hset, Client.unfinished, hwaiting]
    rfl
  -- while one call of `Encode` is behind its header, no other one is
  have hothers (pc : EncodePc) (h : left ++ [pc] ++ right = [pc]) : left = [] ∧ right = [] := by
    have hlen := congrArg List.length h
    simp only [List.length_append, List.length_singleton] at hlen
    exact ⟨List.length_eq_zero_iff.mp (by omega), List.length_eq_zero_iff.mp (by omega)⟩
  rw [hafter]
  cases henc with
  | header e hl =>
    obtain ⟨-, hsecret⟩ := h.apps _ (List.mem_of_getElem? was)
    obtain ⟨hne, hsession⟩ := h.stage_at hwaiting
    have hsends : ClientSends c (log ++ [e]) := by
      refine ⟨h.speaks.concat hne hsecret, ?_, h.authed, h.apps⟩
      rw [hwaiting]
      exact ⟨List.append_ne_nil_of_left_ne_nil hne _, hsession⟩
    rw [hl, hlog]
    refine ⟨hsends.setApp hauthed, ?_⟩
    have hnil : left = [] ∧ right = [] := by simpa [EncodePc.begun?] using hunfinished
    rw [hnil.1, hnil.2]
    rfl
  | body e hl =>
    rw [hl, hlog]
    refine ⟨h.setApp hauthed, ?_⟩
    obtain ⟨rfl, rfl⟩ := hothers _ hunfinished
    rfl
  | flush hl =>
    rw [hl, hlog]
    refine ⟨h.setApp trivial, ?_⟩
    obtain ⟨rfl, rfl⟩ := hothers _ hunfinished
    rfl

theorem Client.unfinished_eq (c : Client) :
    c.unfinished = c.encodes.filterMap EncodePc.begun? := by
  have htoList (pc : Option EncodePc) :
      pc.toList.filterMap EncodePc.begun? = (pc.bind EncodePc.begun?).toList := by
    cases pc with
    | none => rfl
    | some pc => cases pc <;> rfl
  rw [Client.unfinished, Client.encodes, begun, List.filterMap_append, List.filterMap_flatMap,
    htoList]
  simp only [htoList]

/-- The call of `Encode` that writes a header is one of those of the client. -/
theorem LinkRun.mem_encodes_of_clientHeader {e : Sent} (h : s.clientHeader a = some e) :
    .header e ∈ s.client.encodes := by
  have hheader {pc : Option EncodePc} (hpc : pc.bind EncodePc.header? = some e) :
      pc = some (.header e) := by
    obtain ⟨pc, rfl, hpc⟩ := Option.bind_eq_some_iff.mp hpc
    cases pc <;> cases hpc
    rfl
  unfold LinkRun.clientHeader at h
  split at h
  · exact List.mem_append_left _ (Option.mem_toList.mpr (hheader h))
  · obtain ⟨apc, hapc, hpc⟩ := Option.bind_eq_some_iff.mp (hheader h)
    refine List.mem_append_right _ (List.mem_flatMap.mpr ⟨apc, List.mem_of_getElem? hapc, ?_⟩)
    exact Option.mem_toList.mpr hpc
  · cases h

/-- **While a header is written with no other goroutine in `Encode`, no call is behind its own.** -/
theorem LinkRun.unfinished_of_alone {e : Sent} (h : s.clientHeader a = some e)
    (halone : s.client.encodes.length = 1) : s.client.unfinished = [] := by
  obtain ⟨pc, hpc⟩ := List.length_eq_one_iff.mp halone
  have hmem := mem_encodes_of_clientHeader h
  rw [hpc, List.mem_singleton] at hmem
  rw [Client.unfinished_eq, hpc, ← hmem]
  rfl

/-- A step of `Encode` that writes no header while another call is behind its own. -/
theorem Client.encodeStep_ok {l l' : Lane} {pc : EncodePc} {next : EncodeNext}
    (hmid : c.unfinished = mid.toList) (hok : l.Ok mid)
    (hbegun : ∀ pc' ∈ pc.begun?, pc' ∈ c.unfinished)
    (hheader : ∀ e ∈ pc.header?, Fits e.bytes ∧ c.unfinished = [])
    (step : l.encodeStep pc = (l', next)) :
    ∃ mid', l'.Ok mid' ∧ Lane.Encodes l l' mid pc next mid' := by
  rw [hmid] at hbegun hheader
  refine hok.encodes step ?_ ?_
  · rintro e rfl
    obtain ⟨hfits, hnil⟩ := hheader e rfl
    exact ⟨by simpa using hnil, hfits⟩
  · exact fun pc' hpc' => Option.mem_toList.mp (hbegun pc' hpc')

/-- **The client as a sender, after a step of its own.** -/
theorem ClientSends.step (h : ClientSends s.client s.c2s.log)
    (hmid : s.client.unfinished = mid.toList) (hok : s.c2s.Ok mid)
    (hheader : ∀ e ∈ s.clientHeader a, Fits e.bytes ∧ s.client.unfinished = [])
    (he : LinkRun.ClientEffect s a s') :
    ClientSends s'.client s'.c2s.log ∧
      ∃ mid', s'.client.unfinished = mid'.toList ∧ s'.c2s.Ok mid' := by
  cases he with
  | @dialog a pc goes =>
    obtain ⟨hfrom, hto⟩ := goes.begun?_eq
    refine ⟨⟨h.speaks, goes.sendStage h.stage, ?_, h.apps⟩, mid, ?_, hok⟩
    · exact fun hauthed => absurd (Or.inr (h.authed hauthed)) goes.ne
    · rw [← hmid, Client.unfinished, Client.unfinished, hfrom]
      exact congrArg (Option.toList · ++ begun s.client.apps) hto
  | @dialogEncode n pc lane next was step =>
    have hmem : ∀ pc' ∈ pc.begun?, pc' ∈ s.client.unfinished := by
      intro pc' hpc'
      rw [Client.unfinished, was]
      exact List.mem_append_left _ (Option.mem_toList.mpr hpc')
    rw [LinkRun.clientHeader, was] at hheader
    obtain ⟨mid', hok', henc⟩ := Client.encodeStep_ok hmid hok hmem hheader step
    obtain ⟨hsends, hmid'⟩ := h.dialogEncode rfl was hmid henc
    exact ⟨hsends, mid', hmid', hok'⟩
  | authFunc ss was =>
    -- `authed` is not closed yet, so no application goroutine holds a pack under the old session
    obtain ⟨hne, htail⟩ := h.stage_at was
    have hauthed := h.not_authed (by simp [was])
    refine ⟨⟨h.speaks.change htail, ⟨hne, rfl⟩, fun ha => (hauthed ha).elim, ?_⟩, mid, ?_, hok⟩
    · exact fun apc ha => (h.apps apc ha).congr fun ha => (hauthed ha).elim
    · exact Client.unfinished_congr hmid (by rw [was]; rfl) rfl rfl
  | authFails ss was =>
    have hauthed := h.not_authed (by simp [was])
    refine ⟨⟨h.speaks, trivial, fun ha => (hauthed ha).elim, h.apps⟩, mid, ?_, hok⟩
    exact Client.unfinished_congr hmid (by rw [was]; rfl) rfl rfl
  | close was =>
    refine ⟨⟨h.speaks, h.stage_at was, fun _ => rfl, ?_⟩, mid, ?_, hok⟩
    · exact fun apc ha => (h.apps apc ha).congr fun _ => ⟨rfl, rfl⟩
    · exact Client.unfinished_congr hmid (by rw [was]; rfl) rfl rfl
  | spawn pack =>
    refine ⟨⟨h.speaks, h.stage, h.authed, fun apc ha => ?_⟩, mid, ?_, hok⟩
    · rcases List.mem_append.mp ha with ha | ha
      · exact h.apps apc ha
      · rw [List.mem_singleton.mp ha]
        trivial
    · rw [← hmid]
      simp [Client.unfinished, begun, AppPc.encode?]
  | app was goes =>
    obtain ⟨hfrom, hto⟩ := goes.begun?_eq
    obtain ⟨left, right, hbegun, hset⟩ := begun_set was
    refine ⟨h.setApp (goes.appStage (h.apps _ (List.mem_of_getElem? was)) ?_), mid, ?_, hok⟩
    · exact fun ha => (h.stage_at (h.authed ha)).2
    · rw [← hmid, Client.unfinished, Client.unfinished, hbegun, hfrom, ← hto, ← hset]
      rfl
  | @appEncode i n pc lane next was step =>
    have hmem : ∀ pc' ∈ pc.begun?, pc' ∈ s.client.unfinished := by
      intro pc' hpc'
      obtain ⟨left, right, hbegun, -⟩ := begun_set was
      rw [Client.unfinished, hbegun]
      simp [AppPc.encode?, Option.mem_def.mp hpc']
    rw [LinkRun.clientHeader, was] at hheader
    obtain ⟨mid', hok', henc⟩ := Client.encodeStep_ok hmid hok hmem hheader step
    obtain ⟨hsends, hmid'⟩ := h.appEncode rfl was hmid henc
    exact ⟨hsends, mid', hmid', hok'⟩
  | dialogDecode was decode | startLoop was =>
    have hauthed := h.not_authed (by simp [was])
    refine ⟨⟨h.speaks, h.stage_at was, fun ha => (hauthed ha).elim, h.apps⟩, mid, ?_, hok⟩
    exact Client.unfinished_congr hmid (by rw [was]; rfl) rfl rfl
  | _ => exact ⟨⟨h.speaks, h.stage, h.authed, h.apps⟩, mid, hmid, hok⟩

end ClientSteps

/-! ## Steps of the server -/

section ServerSteps

variable {c : LinkConf} {s s' : LinkRun} {b : WorkerEndAct} {w w' : WorkerEnd}
  {mid : Option EncodePc} {log log' : List Sent} {got : List Pack} {opened : List Opened}
  {pc : HandshakePc}

theorem ServerHears.stage_at (h : ServerHears w got opened) (hpc : w.work = pc) :
    w.HearStage got opened pc :=
  hpc ▸ h.stage

/-- A step of `readLoop`. -/
theorem ServerHears.loop (h : ServerHears w got opened) (hr : w.read ≠ .notStarted)
    {got' : List Pack} {opened' : List Opened} (hgot : got' ≠ [])
    (hsessions : ∀ o ∈ opened', some o.session = w.negotiated) (rpc : ReceivePc) :
    ServerHears { w with read := rpc } got' opened' := by
  have hrunning := h.read hr
  refine ⟨hsessions, ?_, fun _ => hrunning⟩
  show w.HearStage got' opened' w.work
  rw [hrunning]
  exact ⟨hgot, (h.stage_at hrunning).2⟩

/-- **The server as a receiver, after a step of its own.** -/
theorem ServerHears.step (h : ServerHears s.server s.c2s.got s.c2s.opened) (hok : s.c2s.Ok mid)
    (he : LinkRun.ServerEffect c s b s') :
    ServerHears s'.server s'.c2s.got s'.c2s.opened ∧ s'.c2s.Ok mid := by
  have hnot (hwork : s.server.work ≠ .running) (hr : s.server.read ≠ .notStarted) : False :=
    hwork (h.read hr)
  cases he with
  | @workDecode w pack lane was decode =>
    obtain ⟨hok', -, hgot, hopened⟩ := hok.decode_first (h.stage_at was).1 decode
    have hne : lane.got ≠ [] := by rw [hgot]; nofun
    refine ⟨⟨?_, ⟨hne, hopened⟩, fun hr => (hnot (by simp [was]) hr).elim⟩, hok'⟩
    show ∀ o ∈ lane.opened, _
    rw [hopened]
    nofun
  | auth out ss was =>
    obtain ⟨hgot, hopened⟩ := h.stage_at was
    refine ⟨⟨?_, ⟨hgot, rfl⟩, fun hr => (hnot (by simp [was]) hr).elim⟩, hok⟩
    show ∀ o ∈ s.c2s.opened, _
    rw [hopened]
    nofun
  | workFails was =>
    refine ⟨⟨h.sessions, trivial, fun hr => (hnot ?_ hr).elim⟩, hok⟩
    rcases was with was | ⟨pack, was⟩ | was <;> simp [was]
  | @workEncode pc ss lane next was step =>
    refine ⟨⟨h.sessions, ?_, fun hr => (hnot (by simp [was]) hr).elim⟩, hok⟩
    cases next with
    | next pc' | done => exact h.stage_at was
    | failed => trivial
  | setSession was =>
    obtain ⟨hgot, hsession⟩ := h.stage_at was
    exact ⟨⟨h.sessions, ⟨hgot, hsession⟩, fun hr => (hnot (by simp [was]) hr).elim⟩, hok⟩
  | run was loop => exact ⟨⟨h.sessions, h.stage_at was, fun _ => rfl⟩, hok⟩
  | readDecode was decode =>
    have hr : s.server.read ≠ .notStarted := by rw [was]; nofun
    obtain ⟨hok', -, hgot, hopened⟩ := hok.loopDecode (h.stage_at (h.read hr)).1 decode
    exact ⟨h.loop hr hgot (fun o ho => h.sessions o (hopened ▸ ho)) _, hok'⟩
  | @readDecrypt r lane was decrypt =>
    have hr : s.server.read ≠ .notStarted := by rw [was]; nofun
    obtain ⟨hgot, hsession⟩ := h.stage_at (h.read hr)
    obtain ⟨bytes, -, hopened, hok', -, hgot'⟩ := hok.loopDecrypt decrypt
    refine ⟨h.loop hr (hgot' ▸ hgot) ?_ _, hok'⟩
    show ∀ o ∈ lane.opened, _
    rw [hopened]
    exact List.forall_mem_append.mpr ⟨h.sessions, List.forall_mem_singleton.mpr hsession.symm⟩
  | readOn was goes => exact ⟨⟨h.sessions, h.stage, fun _ => h.read was⟩, hok⟩
  | _ => exact ⟨⟨h.sessions, h.stage, h.read⟩, hok⟩

theorem ServerSends.stage_at (h : ServerSends w log) (hpc : w.work = pc) : w.SendStage log pc :=
  hpc ▸ h.stage

/-- Before `Run` there is no `sendLoop`. -/
theorem ServerSends.not_running (h : ServerSends w log) (hpc : w.work ≠ .running) :
    w.worker.loop = .notStarted ∧ w.encoder = none := by
  constructor
  · by_contra hloop
    exact hpc (h.loop hloop)
  · by_contra hencoder
    exact hpc (h.encoder hencoder)

/-- A step before `Run`. -/
theorem ServerSends.before (h : ServerSends w log) (hpc : w.work ≠ .running)
    (hworker : w'.worker = w.worker) (hencoder : w'.encoder = w.encoder)
    (hspeaks : Speaks log' w'.negotiated) (hstage : w'.SendStage log' w'.work) :
    ServerSends w' log' := by
  obtain ⟨hl, he⟩ := h.not_running hpc
  rw [← hworker] at hl
  rw [← hencoder] at he
  exact ⟨hspeaks, hstage, fun hne => absurd hl hne, fun hne => absurd he hne, by simp [he]⟩

theorem ServerSends.unfinished_before (h : ServerSends w log) (hpc : w.work ≠ .running) :
    w.unfinished = w.work.encode?.bind EncodePc.begun? := by
  rw [WorkerEnd.unfinished, (h.not_running hpc).2]
  simp

theorem WorkerEnd.unfinished_running (hpc : w.work = .running) :
    w.unfinished = w.encoder.bind EncodePc.begun? := by
  rw [WorkerEnd.unfinished, hpc]
  rfl

/-- A step of the queue starts no `sendLoop`. -/
theorem loop_of_queue {q q' : WorkerRun} {a : WorkerAct} (ha : LinkRun.ofQueue a = true)
    (hs : q.step a = some q') (hloop : q'.loop ≠ .notStarted) : q.loop ≠ .notStarted := by
  cases WorkerRun.step_effect hs with
  | run => cases ha
  | encode pc => cases ha
  | written pc => cases ha
  | writeFailed => cases ha
  | recv pc | handOff pc | exit _ pc => rw [pc]; nofun
  | _ => exact hloop

/-- A step of `Encode` in the handshake. -/
theorem ServerSends.workEncode {l l' : Lane} {pc : EncodePc} {next : EncodeNext} {ss : Cryptor}
    (h : ServerSends w l.log) (hok : l.Ok w.unfinished) (was : w.work = .encoding pc ss)
    (hfits : ∀ e ∈ pc.header?, Fits e.bytes) (step : l.encodeStep pc = (l', next)) :
    l'.log = l.log ++ pc.header?.toList ∧
      ServerSends { w with work := LinkRun.workAfter ss next } l'.log ∧
      l'.Ok (WorkerEnd.unfinished { w with work := LinkRun.workAfter ss next }) := by
  have hstage := h.stage_at was
  have hne : w.work ≠ .running := by simp [was]
  have hafter (pc' : HandshakePc) : WorkerEnd.unfinished { w with work := pc' } =
      (pc'.encode?.bind EncodePc.begun?).or none := by
    rw [WorkerEnd.unfinished, (h.not_running hne).2]
    rfl
  rw [h.unfinished_before hne, was] at hok
  obtain ⟨mid', hok', henc⟩ := hok.encodes step
    (fun e he => ⟨he ▸ rfl, hfits e (he ▸ rfl)⟩) (fun e he => he ▸ rfl)
  refine ⟨henc.log_eq, ?_⟩
  rw [hafter]
  change Lane.Encodes l l' pc.begun? pc next mid' at henc
  generalize pc.begun? = mid at henc
  cases henc with
  | header e hl =>
    obtain ⟨hnil, hplain, hsession⟩ := hstage
    rw [hl, hnil]
    exact ⟨h.before hne rfl rfl (speaks_singleton hplain) ⟨nofun, hsession⟩, hok'⟩
  | body e hl =>
    rw [hl]
    exact ⟨h.before hne rfl rfl h.speaks hstage, hok'⟩
  | flush hl =>
    rw [hl]
    exact ⟨h.before hne rfl rfl h.speaks hstage, hok'⟩

/-- A step of `Encode` in `sendLoop`. -/
theorem ServerSends.encodes {l l' : Lane} {pc : EncodePc} {next : EncodeNext}
    (h : ServerSends w l.log) (hok : l.Ok w.unfinished) (was : w.encoder = some pc)
    (hfits : ∀ e ∈ pc.header?, Fits e.bytes) (step : l.encodeStep pc = (l', next)) :
    l'.log = l.log ++ pc.header?.toList ∧ Speaks l'.log w.negotiated ∧ l'.log ≠ [] ∧
      ((∃ pc', next = .next pc' ∧ pc'.header? = none ∧ l'.Ok pc'.begun?) ∨
        next = .done ∧ l'.Ok none) := by
  have hrunning : w.work = .running := h.encoder (by rw [was]; nofun)
  have hunfinished : w.unfinished = pc.begun? := by
    rw [WorkerEnd.unfinished_running hrunning, was]
    rfl
  obtain ⟨hne, -⟩ := h.stage_at hrunning
  rw [hunfinished] at hok
  obtain ⟨mid', hok', henc⟩ := hok.encodes step
    (fun e he => ⟨he ▸ rfl, hfits e (he ▸ rfl)⟩) (fun e he => he ▸ rfl)
  refine ⟨henc.log_eq, ?_⟩
  generalize pc.begun? = mid at henc
  cases henc with
  | header e hl =>
    rw [hl]
    have hspeaks := h.speaks.concat hne (h.header e was)
    exact ⟨hspeaks, List.append_ne_nil_of_left_ne_nil hne _, Or.inl ⟨_, rfl, rfl, hok'⟩⟩
  | body e hl =>
    rw [hl]
    exact ⟨h.speaks, hne, Or.inl ⟨_, rfl, rfl, hok'⟩⟩
  | flush hl =>
    rw [hl]
    exact ⟨h.speaks, hne, Or.inr ⟨rfl, hok'⟩⟩

/-- A step before `Run` that leaves the lane alone. -/
theorem ServerSends.quiet {l : Lane} (h : ServerSends w l.log) (hok : l.Ok w.unfinished)
    (was : w.work = pc) (hne : pc ≠ .running) (hfrom : pc.encode?.bind EncodePc.begun? = none)
    (hto : w'.work.encode?.bind EncodePc.begun? = none) (hworker : w'.worker = w.worker)
    (hencoder : w'.encoder = w.encoder) (hspeaks : Speaks l.log w'.negotiated)
    (hstage : w'.SendStage l.log w'.work) : ServerSends w' l.log ∧ l.Ok w'.unfinished := by
  subst was
  refine ⟨h.before hne hworker hencoder hspeaks hstage, ?_⟩
  rw [WorkerEnd.unfinished, hfrom] at hok
  rwa [WorkerEnd.unfinished, hto, hencoder]

/-- A step of `sendLoop`. -/
theorem ServerSends.runs {l : Lane} (h : ServerSends w log) (was : w.work = .running)
    (hspeaks : Speaks l.log w.negotiated) (hne : l.log ≠ [])
    (hok : l.Ok (w'.encoder.bind EncodePc.begun?)) (hwork : w'.work = w.work)
    (hsession : w'.session = w.session) (hnegotiated : w'.negotiated = w.negotiated)
    (hheader : ∀ e, w'.encoder = some (.header e) → e.Secret w.negotiated) :
    ServerSends w' l.log ∧ l.Ok w'.unfinished := by
  have hrunning : w'.work = .running := hwork.trans was
  refine ⟨⟨hnegotiated ▸ hspeaks, ?_, fun _ => hrunning, fun _ => hrunning, ?_⟩, ?_⟩
  · rw [hrunning]
    exact ⟨hne, by rw [hnegotiated, hsession, (h.stage_at was).2]⟩
  · rwa [hnegotiated]
  · rwa [WorkerEnd.unfinished_running hrunning]

/-- **The server as a sender, after a step of its own.** -/
theorem ServerSends.step (h : ServerSends s.server s.s2c.log) (hok : s.s2c.Ok s.server.unfinished)
    (hheader : ∀ e ∈ s.serverHeader b, Fits e.bytes) (he : LinkRun.ServerEffect c s b s') :
    ServerSends s'.server s'.s2c.log ∧ s'.s2c.Ok s'.server.unfinished := by
  cases he with
  | workDecode was decode =>
    exact h.quiet hok was nofun rfl rfl rfl rfl h.speaks (h.stage_at was)
  | auth out ss was =>
    -- `w.session` is still the old one; nothing is on the lane when the new one is negotiated
    have hnil : s.s2c.log = [] := h.stage_at was
    refine h.quiet hok was nofun rfl rfl rfl rfl ?_ ⟨hnil, ⟨rfl, rfl⟩, rfl⟩
    rw [hnil]
    exact speaks_nil
  | workFails was =>
    rcases was with was | ⟨pack, was⟩ | was
    · exact h.quiet hok was nofun rfl rfl rfl rfl h.speaks trivial
    · exact h.quiet hok was nofun rfl rfl rfl rfl h.speaks trivial
    · exact h.quiet hok was nofun rfl rfl rfl rfl h.speaks trivial
  | setSession was => exact h.quiet hok was nofun rfl rfl rfl rfl h.speaks (h.stage_at was)
  | workEncode was step =>
    rw [LinkRun.serverHeader, was] at hheader
    exact (h.workEncode hok was hheader step).2
  | run was loop =>
    have hne : s.server.work ≠ .running := by simp [was]
    obtain ⟨-, hencoder⟩ := h.not_running hne
    rw [h.unfinished_before hne, was] at hok
    exact ⟨⟨h.speaks, h.stage_at was, fun _ => rfl, fun _ => rfl, nofun⟩, hok⟩
  | queue ofQueue step =>
    have hloop := loop_of_queue ofQueue step
    exact ⟨⟨h.speaks, h.stage, fun hl => h.loop (hloop hl), h.encoder, h.header⟩, hok⟩
  | encrypt loop encoder filter encrypt =>
    have hrunning : s.server.work = .running := h.loop (by rw [loop]; nofun)
    obtain ⟨hne, hsession⟩ := h.stage_at hrunning
    rw [WorkerEnd.unfinished_running hrunning, encoder] at hok
    refine h.runs hrunning h.speaks hne hok rfl rfl rfl ?_
    rintro e ⟨⟩
    exact ⟨rfl, hsession.symm, _, encrypt⟩
  | writeFails loop encoder =>
    have hrunning : s.server.work = .running := h.loop (by rw [loop]; nofun)
    rw [WorkerEnd.unfinished_running hrunning, encoder] at hok
    exact h.runs hrunning h.speaks (h.stage_at hrunning).1 hok rfl rfl rfl nofun
  | @encodeNext pc pc' lane encoder step =>
    have hrunning : s.server.work = .running := h.encoder (by rw [encoder]; nofun)
    rw [LinkRun.serverHeader, encoder] at hheader
    obtain ⟨-, hspeaks, hne, ⟨_, ⟨⟩, hnext, hok'⟩ | ⟨⟨⟩, -⟩⟩ := h.encodes hok encoder hheader step
    refine h.runs hrunning hspeaks hne hok' rfl rfl rfl ?_
    rintro e ⟨⟩
    cases hnext
  | @encodeEnds pc lane next loop ctxDone encoder step ended =>
    have hrunning : s.server.work = .running := h.encoder (by rw [encoder]; nofun)
    rw [LinkRun.serverHeader, encoder] at hheader
    obtain ⟨-, hspeaks, hne, hnext⟩ := h.encodes hok encoder hheader step
    have hok' : lane.Ok none := by
      rcases ended with ⟨rfl, -⟩ | ⟨rfl, -⟩
      · rcases hnext with ⟨_, ⟨⟩, -, -⟩ | ⟨-, hok'⟩
        exact hok'
      · rcases hnext with ⟨_, ⟨⟩, -, -⟩ | ⟨⟨⟩, -⟩
    exact h.runs hrunning hspeaks hne hok' rfl rfl rfl nofun
  | readDecode was decode | readDecrypt was decrypt | readOn was goes =>
    exact ⟨⟨h.speaks, h.stage, h.loop, h.encoder, h.header⟩, hok⟩

end ServerSteps

/-! ## The two lanes -/

namespace LinkRun

/-- Both ends of the lane from the client to the server. -/
structure Uplink (s : LinkRun) : Prop where
  sends : ClientSends s.client s.c2s.log
  ok : ∃ mid, s.client.unfinished = mid.toList ∧ s.c2s.Ok mid
  hears : ServerHears s.server s.c2s.got s.c2s.opened

/-- Both ends of the lane from the server to the client. -/
structure Downlink (s : LinkRun) : Prop where
  sends : ServerSends s.server s.s2c.log
  ok : s.s2c.Ok s.server.unfinished
  hears : ClientHears s.client s.s2c.got s.s2c.opened

/--
A step of the client writes a header only when no other goroutine of the client is in `Encode`, and
the length of its pack fits into the header.
-/
def ClientKeepsApart (s : LinkRun) : LinkAct → Prop
  | .client a => ∀ e ∈ s.clientHeader a, Fits e.bytes ∧ s.client.encodes.length = 1
  | .server _ => True

/-- The length of a pack whose header a step of the server writes fits into the header. -/
def ServerFits (s : LinkRun) : LinkAct → Prop
  | .client _ => True
  | .server b => ∀ e ∈ s.serverHeader b, Fits e.bytes

instance (s : LinkRun) : ∀ a, Decidable (s.ClientKeepsApart a)
  | .client a =>
    inferInstanceAs (Decidable (∀ e ∈ s.clientHeader a,
      Fits e.bytes ∧ s.client.encodes.length = 1))
  | .server _ => isTrue trivial

instance (s : LinkRun) : ∀ a, Decidable (s.ServerFits a)
  | .client _ => isTrue trivial
  | .server b => inferInstanceAs (Decidable (∀ e ∈ s.serverHeader b, Fits e.bytes))

variable {c : LinkConf} {s s' : LinkRun} {a : LinkAct}

theorem uplink_init (c : LinkConf) : (init c).Uplink :=
  ⟨clientSends_init, ⟨none, rfl, Lane.ok_init c.protocol⟩, serverHears_init _⟩

theorem downlink_init (c : LinkConf) : (init c).Downlink :=
  ⟨serverSends_init _, Lane.ok_init c.protocol, clientHears_init⟩

theorem Uplink.step (h : s.Uplink) (hc : s.ClientKeepsApart a) (hs : s.step c a = some s') :
    s'.Uplink := by
  obtain ⟨mid, hmid, hok⟩ := h.ok
  cases a with
  | client a =>
    have heffect := clientStep_effect hs
    obtain ⟨hserver, -, hgot, hopened⟩ := heffect.frame
    have hheader : ∀ e ∈ s.clientHeader a, Fits e.bytes ∧ s.client.unfinished = [] :=
      fun e he => ⟨(hc e he).1, unfinished_of_alone he (hc e he).2⟩
    obtain ⟨hsends, hok'⟩ := h.sends.step hmid hok hheader heffect
    exact ⟨hsends, hok', by rw [hserver, hgot, hopened]; exact h.hears⟩
  | server b =>
    have heffect := serverStep_effect hs
    obtain ⟨hclient, hlog, -, -⟩ := heffect.frame
    obtain ⟨hhears, hok'⟩ := h.hears.step hok heffect
    exact ⟨by rw [hclient, hlog]; exact h.sends, ⟨mid, hclient ▸ hmid, hok'⟩, hhears⟩

theorem Downlink.step (h : s.Downlink) (hc : s.ServerFits a) (hs : s.step c a = some s') :
    s'.Downlink := by
  cases a with
  | client a =>
    have heffect := clientStep_effect hs
    obtain ⟨hserver, hlog, -, -⟩ := heffect.frame
    obtain ⟨hhears, hok⟩ := h.hears.step h.ok heffect
    exact ⟨by rw [hserver, hlog]; exact h.sends, hserver ▸ hok, hhears⟩
  | server b =>
    have heffect := serverStep_effect hs
    obtain ⟨hclient, -, hgot, hopened⟩ := heffect.frame
    obtain ⟨hsends, hok⟩ := h.sends.step h.ok hc heffect
    exact ⟨hsends, hok, by rw [hclient, hgot, hopened]; exact h.hears⟩

end LinkRun

end FabricaNet.Internal
