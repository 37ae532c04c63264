import FabricaNet.Internal.ConnectionLife

/-!
# The authentication gate

Nothing that belongs to an authenticated connection happens before `Auth` has returned and its reply
has been encoded.

* `Gate` — whoever is past the gate (`work` after the handshake, the loops, the registry, a call
  that has come by the worker) knows that `Auth` returned the session of the worker
* `Positions` — the first frame is in the hand of the handshake, and the loop has the others
* `FrameLog`, `AuthOnce` — what the log says about `Auth` and about the frames
-/

namespace FabricaNet.Internal

open Go Xnet Lib

/-! ## Events -/

namespace ConnEvent

/-- The frame that an event passes on to something. -/
def frame : ConnEvent → Option Nat
  | .auth frame _ | .decrypt frame _ _ | .filter frame _ | .handle frame _ _ => some frame
  | _ => none

/-- A frame as `Decode` has returned it. -/
def arrived : ConnEvent → Option (Nat × Pack)
  | .auth frame pack | .decrypt frame _ pack => some (frame, pack)
  | _ => none

/-- The frame that `Handle` gets. -/
def handled : ConnEvent → Option Nat
  | .handle frame _ _ => some frame
  | _ => none

theorem frame_of_arrived {e : ConnEvent} {frame : Nat} {pack : Pack}
    (h : e.arrived = some (frame, pack)) : e.frame = some frame := by
  cases e <;> cases h
  all_goals rfl

theorem frame_of_handled {e : ConnEvent} {frame : Nat} (h : e.handled = some frame) :
    e.frame = some frame := by
  cases e <;> cases h
  rfl

def isAuth : ConnEvent → Bool
  | .auth _ _ => true
  | _ => false

def isAuthOk : ConnEvent → Bool
  | .authOk _ => true
  | _ => false

/-- What has to be in the log before an event: `Auth` has returned the session that the event is
about, and the reply has been encoded. -/
def BehindGate : ConnEvent → List ConnEvent → Prop
  | .onConnected ss, pre | .tick ss, pre | .decrypt _ ss _, pre | .handle _ ss _, pre =>
    .authOk (some ss) ∈ pre ∧ .replied ∈ pre
  | .registered, pre | .pushed, pre => (∃ ss, .authOk (some ss) ∈ pre) ∧ .replied ∈ pre
  | _, _ => True

/-- An event that is neither about a frame nor about `Auth`. -/
def Aside (e : ConnEvent) : Prop := e.frame = none ∧ e.isAuth = false ∧ e.isAuthOk = false

end ConnEvent

/-! ## The gate -/

/-- `work` is past the handshake, and not in its deferred function. -/
def ServePc.authed : ServePc → Bool
  | .onConnected | .connecting | .setConnected | .put | .stopOld _ | .afterConnect | .run | .running
  | .delWorker => true
  | _ => false

theorem ServePc.Goes.behindGate {ss : Session} {pc pc' : ServePc} {e : Option ConnEvent}
    {pre : List ConnEvent} (h : pc.Goes ss e pc')
    (hpre : pc.authed = true → .authOk (some ss) ∈ pre ∧ .replied ∈ pre) :
    ∀ x ∈ e, x.BehindGate pre := by
  cases h with
  | onConnected =>
    rintro x ⟨⟩
    exact hpre rfl
  | _ => simp [ConnEvent.BehindGate]

/-- `work` comes past the gate by way of `Auth` and of the reply. -/
theorem ServePc.Goes.pastGate {ss : Session} {pc pc' : ServePc} {e : Option ConnEvent}
    (h : pc.Goes ss e pc') : (pc'.authed = true → pc.authed = true) ∧
      (∀ ss', pc' = .encode ss' → .authOk ss' ∈ e) ∧
      ∀ ss', pc' = .setSession ss' → pc = .encode ss' ∧ .replied ∈ e := by
  cases h <;> simp [ServePc.authed]

theorem ReadPc.Goes.started {ss : Session} {pc pc' : ReadPc} {e : Option ConnEvent}
    (h : pc.Goes ss e pc') : pc ≠ .notStarted := by
  cases h with
  | failed started => exact started
  | _ => nofun

theorem TickPc.Goes.started {ss : Session} {pc pc' : TickPc} {e : Option ConnEvent}
    (h : pc.Goes ss e pc') : pc ≠ .notStarted := by
  cases h with
  | exited started => exact started
  | _ => nofun

theorem ReadPc.Goes.behindGate {ss : Session} {pc pc' : ReadPc} {e : Option ConnEvent}
    {pre : List ConnEvent} (h : pc.Goes ss e pc')
    (hpre : .authOk (some ss) ∈ pre ∧ .replied ∈ pre) : ∀ x ∈ e, x.BehindGate pre := by
  cases h <;> simp [ConnEvent.BehindGate, hpre]

theorem TickPc.Goes.behindGate {ss : Session} {pc pc' : TickPc} {e : Option ConnEvent}
    {pre : List ConnEvent} (h : pc.Goes ss e pc')
    (hpre : .authOk (some ss) ∈ pre ∧ .replied ∈ pre) : ∀ x ∈ e, x.BehindGate pre := by
  cases h <;> simp [ConnEvent.BehindGate, hpre]

theorem TurnOffPc.Goes.behindGate {ss : Session} {b : Bool} {off off' : TurnOffPc}
    {e : Option ConnEvent} {pre : List ConnEvent} (h : off.Goes ss b e off') :
    ∀ x ∈ e, x.BehindGate pre := by
  cases h <;> simp [ConnEvent.BehindGate]

namespace ConnRun

variable {s s' : ConnRun}

/-- `Auth` has returned the session of the worker, and the reply has been encoded. -/
def Authed (s : ConnRun) : Prop := .authOk (some s.session) ∈ s.events ∧ .replied ∈ s.events

/-- Someone is past the gate. -/
def Inside (s : ConnRun) : Prop :=
  s.work.authed = true ∨ s.registered.isSome = true ∨ (∃ i, (s.calls i).holds = true) ∨
    s.read ≠ .notStarted ∨ s.tick ≠ .notStarted

structure Gate (s : ConnRun) : Prop where
  encode : ∀ ss, s.work = .encode ss → .authOk ss ∈ s.events
  setSession : ∀ ss, s.work = .setSession ss → .authOk ss ∈ s.events ∧ .replied ∈ s.events
  inside : s.Inside → s.Authed
  events : EachEvent ConnEvent.BehindGate s.events

theorem inside_of_work (h : s.work.authed = true) : s.Inside := Or.inl h

theorem inside_of_registered (h : s.registered.isSome = true) : s.Inside := Or.inr (Or.inl h)

theorem inside_of_call {i : Nat} (h : (s.calls i).holds = true) : s.Inside :=
  Or.inr (Or.inr (Or.inl ⟨i, h⟩))

theorem inside_of_read (h : s.read ≠ .notStarted) : s.Inside :=
  Or.inr (Or.inr (Or.inr (Or.inl h)))

theorem inside_of_tick (h : s.tick ≠ .notStarted) : s.Inside :=
  Or.inr (Or.inr (Or.inr (Or.inr h)))

/-- Whoever is inside after a step that does not start the loops was inside, or was led there by
someone who was. -/
theorem Inside.led (h : s'.Inside) (hwork : s'.work.authed = true → s.work.authed = true)
    (hreg : s'.registered = s.registered)
    (hcalls : ∀ i, (s'.calls i).holds = true →
      (s.calls i).holds = true ∨ s.registered.isSome = true)
    (hread : s'.read = s.read) (htick : s'.tick = s.tick) : s.Inside := by
  rcases h with h | h | ⟨i, h⟩ | h | h
  · exact inside_of_work (hwork h)
  · exact inside_of_registered (hreg ▸ h)
  · exact (hcalls i h).elim inside_of_call inside_of_registered
  · exact inside_of_read (hread ▸ h)
  · exact inside_of_tick (htick ▸ h)

theorem gate_init (c : BucketConf) (ref : Nat) (wid : UInt64) (frames : List Pack) :
    Gate (init c ref wid frames) := by
  refine ⟨nofun, nofun, fun hin => ?_, eachEvent_nil⟩
  rcases hin with h | h | ⟨i, h⟩ | h | h
  · cases h
  · rw [registered, init, WorkerManager.worker_newWorkerManager] at h
    cases h
  · cases h
  · exact absurd rfl h
  · exact absurd rfl h

/-- A step that keeps the session. -/
theorem Gate.of_step (h : Gate s) (hsession : s'.session = s.session) {e : Option ConnEvent}
    (hevents : s'.events = s.events ++ e.toList) (he : ∀ x ∈ e, x.BehindGate s.events)
    (hinside : s'.Inside → s.Inside)
    (hencode : ∀ ss, s'.work = .encode ss → s.work = .encode ss ∨ .authOk ss ∈ e)
    (hset : ∀ ss, s'.work = .setSession ss →
      s.work = .setSession ss ∨ s.work = .encode ss ∧ .replied ∈ e) : Gate s' := by
  have hold : ∀ {x}, x ∈ s.events → x ∈ s'.events := by
    rw [hevents]
    exact fun hx => List.mem_append_left _ hx
  have hnew : ∀ {x}, x ∈ e → x ∈ s'.events := by
    rw [hevents]
    exact fun hx => List.mem_append_right _ (Option.mem_toList.mpr hx)
  refine ⟨fun ss hpc => ?_, fun ss hpc => ?_, fun hin => ?_, ?_⟩
  · rcases hencode ss hpc with hpc | hx
    · exact hold (h.encode ss hpc)
    · exact hnew hx
  · rcases hset ss hpc with hpc | ⟨hpc, hx⟩
    · exact (h.setSession ss hpc).imp hold hold
    · exact ⟨hold (h.encode ss hpc), hnew hx⟩
  · obtain ⟨hok, hreplied⟩ := h.inside (hinside hin)
    rw [← hsession] at hok
    exact ⟨hold hok, hold hreplied⟩
  · rw [hevents]
    cases e with
    | none => rw [Option.toList_none, List.append_nil]; exact h.events
    | some x => exact eachEvent_concat.mpr ⟨h.events, he x rfl⟩

/-- A step of someone else than `work`. -/
theorem Gate.of_other (h : Gate s) (hsession : s'.session = s.session) {e : Option ConnEvent}
    (hevents : s'.events = s.events ++ e.toList) (he : ∀ x ∈ e, x.BehindGate s.events)
    (hinside : s'.Inside → s.Inside) (hwork : s'.work = s.work) : Gate s' := by
  refine h.of_step hsession hevents he hinside (fun ss hpc => ?_) fun ss hpc => ?_
  · exact Or.inl (hwork.symm.trans hpc)
  · exact Or.inl (hwork.symm.trans hpc)

theorem gate_work {e : Option ConnEvent} {pc : ServePc} (h : Gate s)
    (goes : s.work.Goes s.session e pc) : Gate { s.tell e with work := pc } := by
  obtain ⟨hauthed, hencode, hset⟩ := goes.pastGate
  refine h.of_step (tell_session e) (tell_events e) (fun x hx => ?_) (fun hin => ?_)
    (fun ss hpc => Or.inr (hencode ss hpc)) fun ss hpc => Or.inr (hset ss hpc)
  · exact goes.behindGate (fun hw => h.inside (inside_of_work hw)) x hx
  · exact hin.led hauthed (tell_registered e) (fun i hi => Or.inl (tell_calls e ▸ hi)) (tell_read e)
      (tell_tick e)

theorem gate_step {a : ConnAct} (h : Gate s) (hstep : s.step a = some s') : Gate s' := by
  have hnil : s.events = s.events ++ (none : Option ConnEvent).toList := (List.append_nil _).symm
  cases step_effect hstep with
  | work goes => exact gate_work h goes
  | decoded pc =>
    exact h.of_step rfl hnil forall_none
      (fun hin => hin.led nofun rfl (fun _ => Or.inl) rfl rfl) nofun nofun
  | setSession pc =>
    -- from here on the session of the worker is the one that `Auth` has returned
    obtain ⟨hok, hreplied⟩ := h.setSession _ pc
    exact ⟨nofun, nofun, fun _ => ⟨hok, hreplied⟩, h.events⟩
  | setConnected pc | run pc =>
    have hin : s.Inside := inside_of_work (by rw [pc]; rfl)
    exact h.of_step rfl hnil forall_none (fun _ => hin) nofun nofun
  | put pc =>
    have hin : s.Inside := inside_of_work (by rw [pc]; rfl)
    obtain ⟨hok, hreplied⟩ := h.inside hin
    refine h.of_step (e := some .registered) rfl rfl (fun x hx => ?_) (fun _ => hin) nofun nofun
    obtain rfl := Option.mem_some_iff.mp hx
    exact ⟨⟨_, hok⟩, hreplied⟩
  | taken pc taken =>
    exact h.of_step rfl hnil forall_none (fun _ => inside_of_work (by rw [pc]; rfl)) nofun nofun
  | delWorker pc =>
    exact h.of_step rfl hnil forall_none (fun _ => inside_of_work (by rw [pc]; rfl)) nofun nofun
  | turnsOff | stopped =>
    exact h.of_step rfl hnil forall_none
      (fun hin => hin.led nofun rfl (fun _ => Or.inl) rfl rfl) nofun nofun
  | read ctxDone goes =>
    have hin : s.Inside := inside_of_read goes.started
    refine h.of_other (tell_session _) (tell_events _) (fun x hx => ?_) (fun _ => hin) (tell_work _)
    exact goes.behindGate (h.inside hin) x hx
  | tick ctxDone goes =>
    have hin : s.Inside := inside_of_tick goes.started
    refine h.of_other (tell_session _) (tell_events _) (fun x hx => ?_) (fun _ => hin) (tell_work _)
    exact goes.behindGate (h.inside hin) x hx
  | readDecoded pc =>
    exact h.of_other rfl hnil forall_none (fun _ => inside_of_read (by rw [pc]; nofun)) rfl
  | ctxEnd => exact h.of_other rfl hnil forall_none id rfl
  | turnOff goes =>
    refine h.of_other (tell_session _) (tell_events _) (fun x hx => ?_) (fun hin => ?_)
      (tell_work _)
    · exact goes.behindGate x hx
    · exact hin.led (fun hw => tell_work _ ▸ hw) (tell_registered _)
        (fun i hi => Or.inl (tell_calls _ ▸ hi)) (tell_read _) (tell_tick _)
  | @call i pc serverStopping notLast next holds =>
    refine h.of_other rfl hnil forall_none (fun hin => ?_) rfl
    refine hin.led id rfl (fun j hj => ?_) rfl rfl
    by_cases hji : j = i
    · subst hji
      rw [setCall_self] at hj
      exact holds hj
    · rw [setCall_of_ne _ hji] at hj
      exact Or.inl hj
  | @callDel i pc =>
    exact h.of_other rfl hnil forall_none (fun _ => inside_of_call (i := i) (by rw [pc]; rfl)) rfl
  | @pushed i pc =>
    have hin : s.Inside := inside_of_call (i := i) (by rw [pc]; rfl)
    obtain ⟨hok, hreplied⟩ := h.inside hin
    refine h.of_other (e := some .pushed) rfl rfl (fun x hx => ?_) (fun _ => hin) rfl
    obtain rfl := Option.mem_some_iff.mp hx
    exact ⟨⟨_, hok⟩, hreplied⟩
  | @callTurnsOff i pc =>
    exact h.of_other rfl hnil forall_none (fun _ => inside_of_call (i := i) (by rw [pc]; rfl)) rfl
  | manager same =>
    exact h.of_other rfl hnil forall_none (fun hin => hin.led id same (fun _ => Or.inl) rfl rfl) rfl

end ConnRun

/-! ## Where the frames are -/

/-- `work` has not called `Decode` yet. -/
def ServePc.fresh : ServePc → Bool
  | .deadline | .decode => true
  | _ => false

/-- `work` has the first frame, or has had it. -/
def ServePc.past : ServePc → Bool
  | .auth _ _ | .authing | .encode _ | .setSession _ => true
  | pc => pc.authed

/-- The frame that `readLoop` has in hand and has not passed to `Handle` yet. -/
def ReadPc.frame : ReadPc → Option Nat
  | .decrypt frame _ | .filter frame _ | .handle frame _ => some frame
  | _ => none

theorem ServePc.Goes.position {ss : Session} {pc pc' : ServePc} {e : Option ConnEvent}
    (h : pc.Goes ss e pc') :
    (pc'.fresh = true → pc.fresh = true) ∧ (pc'.past = true → pc.past = true) ∧
      ∀ frame pack, pc' ≠ .auth frame pack := by
  cases h <;> simp [ServePc.fresh, ServePc.past, ServePc.authed]

theorem ReadPc.Goes.position {ss : Session} {pc pc' : ReadPc} {e : Option ConnEvent}
    (h : pc.Goes ss e pc') :
    (∀ frame, pc'.frame = some frame → pc.frame = some frame) ∧
      ∀ frame pack, pc' ≠ .decrypt frame pack := by
  cases h <;> simp [ReadPc.frame]

/-- What `work` tells. -/
theorem ServePc.Goes.told {ss : Session} {pc pc' : ServePc} {e : Option ConnEvent}
    (h : pc.Goes ss e pc') :
    (∃ frame pack, pc = .auth frame pack ∧ pc' = .authing ∧ e = some (.auth frame pack)) ∨
      (∃ ss', pc = .authing ∧ pc' = .encode ss' ∧ e = some (.authOk ss')) ∨
      ∀ x ∈ e, x.Aside := by
  cases h with
  | auth => exact Or.inl ⟨_, _, rfl, rfl, rfl⟩
  | authOk => exact Or.inr (Or.inl ⟨_, rfl, rfl, rfl⟩)
  | replied | onConnected | connected | afterConnect | afterConnectFailed | afterDisconnect =>
    refine Or.inr (Or.inr ?_)
    rintro x ⟨⟩
    exact ⟨rfl, rfl, rfl⟩
  | _ => exact Or.inr (Or.inr ConnRun.forall_none)

/-- What `readLoop` tells. -/
theorem ReadPc.Goes.told {ss : Session} {pc pc' : ReadPc} {e : Option ConnEvent}
    (h : pc.Goes ss e pc') : ∀ x ∈ e, (x.isAuth = false ∧ x.isAuthOk = false) ∧
      (∀ frame, x.frame = some frame → pc.frame = some frame) ∧
      (∀ frame pack, x.arrived = some (frame, pack) → pc = .decrypt frame pack) ∧
      ∀ frame, x.handled = some frame → pc'.frame = none := by
  cases h with
  | decrypted | decryptFailed =>
    rintro x ⟨⟩
    refine ⟨⟨rfl, rfl⟩, fun _ => id, fun frame pack harrived => ?_, nofun⟩
    cases harrived
    rfl
  | refused | dropped | passed =>
    rintro x ⟨⟩
    exact ⟨⟨rfl, rfl⟩, fun _ => id, nofun, nofun⟩
  | handle =>
    rintro x ⟨⟩
    exact ⟨⟨rfl, rfl⟩, fun _ => id, nofun, fun _ _ => rfl⟩
  | _ => exact ConnRun.forall_none

theorem TickPc.Goes.aside {ss : Session} {pc pc' : TickPc} {e : Option ConnEvent}
    (h : pc.Goes ss e pc') : ∀ x ∈ e, x.Aside := by
  cases h with
  | tick =>
    rintro x ⟨⟩
    exact ⟨rfl, rfl, rfl⟩
  | _ => exact ConnRun.forall_none

theorem TurnOffPc.Goes.aside {ss : Session} {b : Bool} {off off' : TurnOffPc}
    {e : Option ConnEvent} (h : off.Goes ss b e off') : ∀ x ∈ e, x.Aside := by
  cases h with
  | onDisconnect =>
    rintro x ⟨⟩
    exact ⟨rfl, rfl, rfl⟩
  | _ => exact ConnRun.forall_none

namespace ConnRun

variable {s s' : ConnRun}

/-- The first frame is in the hand of the handshake, and the loop has the others. -/
structure Positions (s : ConnRun) : Prop where
  fresh : s.work.fresh = true → s.decoded = 0 ∧ s.read = .notStarted
  past : s.work.past = true → 1 ≤ s.decoded
  auth : ∀ frame pack, s.work = .auth frame pack → frame = 0 ∧ s.frames[frame]? = some pack
  started : s.read ≠ .notStarted → 1 ≤ s.decoded
  inHand : ∀ frame, s.read.frame = some frame → 1 ≤ frame ∧ frame < s.decoded
  arrived : ∀ frame pack, s.read = .decrypt frame pack → s.frames[frame]? = some pack

theorem positions_init (c : BucketConf) (ref : Nat) (wid : UInt64) (frames : List Pack) :
    Positions (init c ref wid frames) :=
  ⟨fun _ => ⟨rfl, rfl⟩, nofun, nofun, fun h => absurd rfl h, nofun, nofun⟩

/-- A step of `work` that decodes nothing. -/
theorem Positions.of_work (h : Positions s) (hframes : s'.frames = s.frames)
    (hdecoded : s'.decoded = s.decoded) (hread : s'.read = s.read)
    (hfresh : s'.work.fresh = true → s.work.fresh = true)
    (hpast : s'.work.past = true → s.work.past = true)
    (hauth : ∀ frame pack, s'.work = .auth frame pack → s.work = .auth frame pack) :
    Positions s' := by
  refine ⟨?_, ?_, ?_, ?_, ?_, ?_⟩
  · rw [hdecoded, hread]; exact fun hf => h.fresh (hfresh hf)
  · rw [hdecoded]; exact fun hp => h.past (hpast hp)
  · rw [hframes]; exact fun frame pack ha => h.auth frame pack (hauth frame pack ha)
  · rw [hread, hdecoded]; exact h.started
  · rw [hread, hdecoded]; exact h.inHand
  · rw [hread, hframes]; exact h.arrived

/-- A step of someone who is neither `work` nor `readLoop`. -/
theorem Positions.of_other (h : Positions s) (hframes : s'.frames = s.frames)
    (hdecoded : s'.decoded = s.decoded) (hread : s'.read = s.read) (hwork : s'.work = s.work) :
    Positions s' :=
  h.of_work hframes hdecoded hread (by rw [hwork]; exact id) (by rw [hwork]; exact id)
    (by rw [hwork]; exact fun _ _ => id)

/-- While `work` is fresh the loop has not started. -/
theorem Positions.not_fresh (h : Positions s) (hread : s.read ≠ .notStarted) :
    s.work.fresh = false := by
  by_contra hf
  exact hread (h.fresh (Bool.not_eq_false _ ▸ hf)).2

theorem positions_step {a : ConnAct} (h : Positions s) (hstep : s.step a = some s') :
    Positions s' := by
  cases step_effect hstep with
  | work goes =>
    obtain ⟨hfresh, hpast, hauth⟩ := goes.position
    exact h.of_work (tell_frames _) (tell_decoded _) (tell_read _) hfresh hpast
      fun frame pack ha => absurd ha (hauth frame pack)
  | @decoded pack pc frame =>
    obtain ⟨hzero, hread⟩ := h.fresh (by rw [pc]; rfl)
    refine ⟨nofun, fun _ => Nat.le_add_left 1 _, ?_, fun _ => Nat.le_add_left 1 _, ?_, ?_⟩
    · rintro _ _ ⟨⟩
      exact ⟨hzero, frame⟩
    · rw [hread]; nofun
    · rw [hread]; nofun
  | setSession pc | setConnected pc | put pc | taken pc =>
    exact h.of_work rfl rfl rfl nofun (fun _ => by rw [pc]; rfl) nofun
  | run pc =>
    have hpast := h.past (by rw [pc]; rfl)
    exact ⟨nofun, fun _ => hpast, nofun, fun _ => hpast, nofun, nofun⟩
  | delWorker | turnsOff | stopped => exact h.of_work rfl rfl rfl nofun nofun nofun
  | read ctxDone goes =>
    obtain ⟨hframe, hdecrypt⟩ := goes.position
    have hfresh := h.not_fresh goes.started
    have hdecoded := h.started goes.started
    refine ⟨fun hf => ?_, ?_, ?_, ?_, fun frame hf => ?_, fun frame pack hd => ?_⟩
    · rw [show (s.tell _).work = s.work from tell_work _, hfresh] at hf
      cases hf
    · simpa using h.past
    · simpa using h.auth
    · simpa using fun _ => hdecoded
    · simpa using h.inHand frame (hframe frame hf)
    · exact absurd hd (hdecrypt frame pack)
  | @readDecoded pack pc frame =>
    have hstarted : s.read ≠ .notStarted := by rw [pc]; nofun
    have hfresh := h.not_fresh hstarted
    refine ⟨fun hf => ?_, fun _ => Nat.le_add_left 1 _, h.auth, fun _ => Nat.le_add_left 1 _, ?_,
      ?_⟩
    · rw [hfresh] at hf
      cases hf
    · rintro _ ⟨⟩
      exact ⟨h.started hstarted, Nat.lt_succ_self _⟩
    · rintro _ _ ⟨⟩
      exact frame
  | tick | turnOff =>
    exact h.of_other (tell_frames _) (tell_decoded _) (tell_read _) (tell_work _)
  | ctxEnd | call | callDel | pushed | callTurnsOff | manager => exact h.of_other rfl rfl rfl rfl

/-! ## What the log says about the frames -/

structure FrameLog (s : ConnRun) : Prop where
  first : ∀ e ∈ s.events, ∀ frame, e.frame = some frame → (frame = 0 ↔ e.isAuth = true)
  arrived : ∀ e ∈ s.events, ∀ frame pack, e.arrived = some (frame, pack) →
    s.frames[frame]? = some pack
  below : ∀ e ∈ s.events, ∀ frame, e.handled = some frame →
    frame < s.decoded ∧ ∀ next, s.read.frame = some next → frame < next
  order : (s.events.filterMap ConnEvent.handled).Pairwise (· < ·)

theorem frameLog_init (c : BucketConf) (ref : Nat) (wid : UInt64) (frames : List Pack) :
    FrameLog (init c ref wid frames) := ⟨nofun, nofun, nofun, List.Pairwise.nil⟩

theorem FrameLog.of_step (h : FrameLog s) (hframes : s'.frames = s.frames)
    (hdecoded : s.decoded ≤ s'.decoded) {e : Option ConnEvent}
    (hevents : s'.events = s.events ++ e.toList)
    (hfirst : ∀ x ∈ e, ∀ frame, x.frame = some frame → (frame = 0 ↔ x.isAuth = true))
    (harrived : ∀ x ∈ e, ∀ frame pack, x.arrived = some (frame, pack) →
      s.frames[frame]? = some pack)
    (hread : ∀ next, s'.read.frame = some next → s.read.frame = some next ∨ s.decoded ≤ next)
    (hhandled : ∀ x ∈ e, ∀ frame, x.handled = some frame →
      s.read.frame = some frame ∧ frame < s.decoded ∧ s'.read.frame = none) : FrameLog s' := by
  have hmem : ∀ {x}, x ∈ s'.events → x ∈ s.events ∨ x ∈ e := by
    intro x hx
    rw [hevents, List.mem_append, Option.mem_toList] at hx
    exact hx
  refine ⟨fun x hx => ?_, fun x hx => ?_, fun x hx frame hf => ?_, ?_⟩
  · exact (hmem hx).elim (h.first x) (hfirst x)
  · rw [hframes]
    exact (hmem hx).elim (h.arrived x) (harrived x)
  · rcases hmem hx with hx | hx
    · obtain ⟨hlt, hnext⟩ := h.below x hx frame hf
      refine ⟨Nat.lt_of_lt_of_le hlt hdecoded, fun next hn => ?_⟩
      rcases hread next hn with hn | hn
      · exact hnext next hn
      · exact Nat.lt_of_lt_of_le hlt hn
    · obtain ⟨-, hlt, hnone⟩ := hhandled x hx frame hf
      refine ⟨Nat.lt_of_lt_of_le hlt hdecoded, fun next hn => ?_⟩
      rw [hnone] at hn
      cases hn
  · rw [hevents, List.filterMap_append, List.pairwise_append]
    refine ⟨h.order, ?_, fun i hi j hj => ?_⟩
    · cases e with
      | none => exact List.Pairwise.nil
      | some x =>
        rw [Option.toList_some, List.filterMap_cons, List.filterMap_nil]
        cases x.handled with
        | none => exact List.Pairwise.nil
        | some i => exact List.pairwise_singleton _ i
    · -- the frame that is handled now comes after all that were handled before
      obtain ⟨x, hx, hxi⟩ := List.mem_filterMap.mp hi
      obtain ⟨y, hy, hyj⟩ := List.mem_filterMap.mp hj
      exact (h.below x hx i hxi).2 j (hhandled y (Option.mem_toList.mp hy) j hyj).1

/-- A step that neither decodes nor passes a frame on. -/
theorem FrameLog.of_other (h : FrameLog s) (hframes : s'.frames = s.frames)
    (hdecoded : s.decoded ≤ s'.decoded) {e : Option ConnEvent}
    (hevents : s'.events = s.events ++ e.toList) (he : ∀ x ∈ e, x.frame = none)
    (hread : ∀ next, s'.read.frame = some next → s.read.frame = some next ∨ s.decoded ≤ next) :
    FrameLog s' := by
  refine h.of_step hframes hdecoded hevents (fun x hx frame hf => ?_) (fun x hx frame pack hf => ?_)
    hread fun x hx frame hf => ?_
  · rw [he x hx] at hf
    cases hf
  · exact absurd (ConnEvent.frame_of_arrived hf) (by rw [he x hx]; nofun)
  · exact absurd (ConnEvent.frame_of_handled hf) (by rw [he x hx]; nofun)

theorem frameLog_work {e : Option ConnEvent} {pc : ServePc} (h : FrameLog s) (hpos : Positions s)
    (goes : s.work.Goes s.session e pc) : FrameLog { s.tell e with work := pc } := by
  have hread : ∀ next, (s.tell e).read.frame = some next →
      s.read.frame = some next ∨ s.decoded ≤ next := by
    rw [tell_read]
    exact fun _ => Or.inl
  rcases goes.told with ⟨frame, pack, hpc, rfl, rfl⟩ | ⟨ss, hpc, rfl, rfl⟩ | haside
  · obtain ⟨hzero, hframe⟩ := hpos.auth _ _ hpc
    refine h.of_step rfl le_rfl (tell_events _) ?_ ?_ hread ?_
    · rintro x ⟨⟩ _ ⟨⟩
      exact iff_of_true hzero rfl
    · rintro x ⟨⟩ _ _ ⟨⟩
      exact hframe
    · rintro x ⟨⟩ _ ⟨⟩
  · refine h.of_other rfl le_rfl (tell_events _) ?_ hread
    rintro x ⟨⟩
    rfl
  · exact h.of_other (tell_frames e) (tell_decoded e).ge (tell_events e)
      (fun x hx => (haside x hx).1) hread

theorem frameLog_step {a : ConnAct} (h : FrameLog s) (hpos : Positions s)
    (hstep : s.step a = some s') : FrameLog s' := by
  have hnil : s.events = s.events ++ (none : Option ConnEvent).toList := (List.append_nil _).symm
  cases step_effect hstep with
  | work goes => exact frameLog_work h hpos goes
  | decoded => exact h.of_other rfl (Nat.le_succ _) hnil forall_none fun _ => Or.inl
  | setSession | setConnected | taken | delWorker | turnsOff | stopped | ctxEnd | call | callDel |
    callTurnsOff | manager => exact h.of_other rfl le_rfl hnil forall_none fun _ => Or.inl
  | run => exact h.of_other rfl le_rfl hnil forall_none nofun
  | put =>
    exact h.of_other (e := some .registered) rfl le_rfl rfl (by simp [ConnEvent.frame])
      fun _ => Or.inl
  | pushed =>
    exact h.of_other (e := some .pushed) rfl le_rfl rfl (by simp [ConnEvent.frame]) fun _ => Or.inl
  | read ctxDone goes =>
    refine h.of_step (tell_frames _) (tell_decoded _).ge (tell_events _) (fun x hx frame hf => ?_)
      (fun x hx frame pack hf => ?_) (fun next hn => ?_) fun x hx frame hf => ?_
    · -- the loop never has the first frame
      obtain ⟨hauth, hframe, -⟩ := goes.told x hx
      have hpos := (hpos.inHand frame (hframe frame hf)).1
      rw [hauth.1]
      exact iff_of_false (Nat.ne_of_gt hpos) nofun
    · exact hpos.arrived frame pack ((goes.told x hx).2.2.1 frame pack hf)
    · exact Or.inl (goes.position.1 next hn)
    · obtain ⟨-, hframe, -, hnone⟩ := goes.told x hx
      have hhand := hframe frame (ConnEvent.frame_of_handled hf)
      exact ⟨hhand, (hpos.inHand frame hhand).2, hnone frame hf⟩
  | readDecoded =>
    refine h.of_other rfl (Nat.le_succ _) hnil forall_none ?_
    rintro _ ⟨⟩
    exact Or.inr le_rfl
  | tick ctxDone goes =>
    refine h.of_other (tell_frames _) (tell_decoded _).ge (tell_events _)
      (fun x hx => (goes.aside x hx).1) fun next hn => ?_
    exact Or.inl (tell_read (s := s) _ ▸ hn)
  | turnOff goes =>
    refine h.of_other (tell_frames _) (tell_decoded _).ge (tell_events _)
      (fun x hx => (goes.aside x hx).1) fun next hn => ?_
    exact Or.inl (tell_read (s := s) _ ▸ hn)

/-! ## What the log says about `Auth` -/

/-- Events of this kind happen once, at the end of the stage. -/
structure OnceAfter (stage : ServePc → Bool) (p : ConnEvent → Bool) (s : ConnRun) : Prop where
  none_before : stage s.work = true → s.events.countP p = 0
  at_most_once : s.events.countP p ≤ 1

theorem OnceAfter.of_step {stage : ServePc → Bool} {p : ConnEvent → Bool} (h : OnceAfter stage p s)
    {e : Option ConnEvent} (hevents : s'.events = s.events ++ e.toList)
    (hstage : stage s'.work = true → stage s.work = true)
    (he : ∀ x ∈ e, p x = true → stage s.work = true ∧ stage s'.work = false) :
    OnceAfter stage p s' := by
  have hcount : s'.events.countP p = s.events.countP p ∨
      stage s.work = true ∧ stage s'.work = false ∧ s'.events.countP p = s.events.countP p + 1 := by
    rw [hevents, List.countP_append]
    cases e with
    | none => exact Or.inl rfl
    | some x =>
      cases hx : p x with
      | false => exact Or.inl (by simp [hx])
      | true => exact Or.inr ⟨(he x rfl hx).1, (he x rfl hx).2, by simp [hx]⟩
  rcases hcount with hcount | ⟨hbefore, hafter, hcount⟩
  · exact ⟨fun hs => hcount.trans (h.none_before (hstage hs)), hcount ▸ h.at_most_once⟩
  · refine ⟨fun hs => ?_, ?_⟩
    · rw [hafter] at hs
      cases hs
    · rw [hcount, h.none_before hbefore]

/-- `work` has not called `Auth` yet. -/
def beforeAuth : ServePc → Bool
  | .deadline | .decode | .auth _ _ => true
  | _ => false

/-- `Auth` has not returned yet. -/
def beforeAnswer : ServePc → Bool
  | .authing => true
  | pc => beforeAuth pc

/-- `Auth` is called once, and returns once. -/
def AuthOnce (s : ConnRun) : Prop :=
  OnceAfter beforeAuth ConnEvent.isAuth s ∧ OnceAfter beforeAnswer ConnEvent.isAuthOk s

theorem authOnce_init (c : BucketConf) (ref : Nat) (wid : UInt64) (frames : List Pack) :
    AuthOnce (init c ref wid frames) := ⟨⟨fun _ => rfl, Nat.zero_le _⟩, fun _ => rfl, Nat.zero_le _⟩

/-- A step that does not call `Auth` and does not return from it. -/
theorem AuthOnce.of_step (h : AuthOnce s) {e : Option ConnEvent}
    (hevents : s'.events = s.events ++ e.toList)
    (he : ∀ x ∈ e, x.isAuth = false ∧ x.isAuthOk = false)
    (hauth : beforeAuth s'.work = true → beforeAuth s.work = true)
    (hanswer : beforeAnswer s'.work = true → beforeAnswer s.work = true) : AuthOnce s' := by
  refine ⟨h.1.of_step hevents hauth fun x hx hp => ?_,
    h.2.of_step hevents hanswer fun x hx hp => ?_⟩
  · rw [(he x hx).1] at hp
    cases hp
  · rw [(he x hx).2] at hp
    cases hp

theorem AuthOnce.of_other (h : AuthOnce s) {e : Option ConnEvent}
    (hevents : s'.events = s.events ++ e.toList)
    (he : ∀ x ∈ e, x.isAuth = false ∧ x.isAuthOk = false) (hwork : s'.work = s.work) :
    AuthOnce s' := h.of_step hevents he (by rw [hwork]; exact id) (by rw [hwork]; exact id)

theorem before_of_goes {ss : Session} {e : Option ConnEvent} {pc pc' : ServePc}
    (goes : pc.Goes ss e pc') : (beforeAuth pc' = true → beforeAuth pc = true) ∧
      (beforeAnswer pc' = true → beforeAnswer pc = true) := by
  cases goes <;> simp [beforeAuth, beforeAnswer]

theorem authOnce_work {e : Option ConnEvent} {pc : ServePc} (h : AuthOnce s)
    (goes : s.work.Goes s.session e pc) : AuthOnce { s.tell e with work := pc } := by
  obtain ⟨hauth, hanswer⟩ := before_of_goes goes
  rcases goes.told with ⟨frame, pack, hpc, rfl, rfl⟩ | ⟨ss, hpc, rfl, rfl⟩ | haside
  · refine ⟨h.1.of_step (tell_events _) hauth fun _ _ _ => ⟨by rw [hpc]; rfl, rfl⟩,
      h.2.of_step (tell_events _) hanswer ?_⟩
    rintro x ⟨⟩ ⟨⟩
  · refine ⟨h.1.of_step (tell_events _) hauth ?_,
      h.2.of_step (tell_events _) hanswer fun _ _ _ => ⟨by rw [hpc]; rfl, rfl⟩⟩
    rintro x ⟨⟩ ⟨⟩
  · exact h.of_step (tell_events e) (fun x hx => (haside x hx).2) hauth hanswer

theorem authOnce_step {a : ConnAct} (h : AuthOnce s) (hstep : s.step a = some s') :
    AuthOnce s' := by
  have hnil : s.events = s.events ++ (none : Option ConnEvent).toList := (List.append_nil _).symm
  cases step_effect hstep with
  | work goes => exact authOnce_work h goes
  | decoded pc =>
    exact h.of_step hnil forall_none (fun _ => by rw [pc]; rfl) fun _ => by rw [pc]; rfl
  | setSession | setConnected | taken | run | delWorker | turnsOff | stopped =>
    exact h.of_step hnil forall_none nofun nofun
  | put =>
    exact h.of_step (e := some .registered) rfl (by simp [ConnEvent.isAuth, ConnEvent.isAuthOk])
      nofun nofun
  | read ctxDone goes =>
    exact h.of_other (tell_events _) (fun x hx => (goes.told x hx).1) (tell_work _)
  | tick ctxDone goes =>
    exact h.of_other (tell_events _) (fun x hx => (goes.aside x hx).2) (tell_work _)
  | turnOff goes =>
    exact h.of_other (tell_events _) (fun x hx => (goes.aside x hx).2) (tell_work _)
  | readDecoded | ctxEnd | call | callDel | callTurnsOff | manager =>
    exact h.of_other hnil forall_none rfl
  | pushed =>
    exact h.of_other (e := some .pushed) rfl (by simp [ConnEvent.isAuth, ConnEvent.isAuthOk]) rfl

/-! ## The result -/

/-- What the gate keeps. -/
structure AuthGate (s : ConnRun) : Prop where
  auth_once : s.events.countP ConnEvent.isAuth ≤ 1
  answer_once : s.events.countP ConnEvent.isAuthOk ≤ 1
  /-- the first frame goes to `Auth` and to nothing else, and no other frame goes to `Auth` -/
  first : ∀ e ∈ s.events, ∀ frame, e.frame = some frame → (frame = 0 ↔ e.isAuth = true)
  arrived : ∀ e ∈ s.events, ∀ frame pack, e.arrived = some (frame, pack) →
    s.frames[frame]? = some pack
  behind : EachEvent ConnEvent.BehindGate s.events
  registered : s.manager.worker s.wid ≠ none →
    (∃ ss, .authOk (some ss) ∈ s.events) ∧ .replied ∈ s.events
  /-- frames are handled in the order of their arrival, none of them twice -/
  handled_in_order : (s.events.filterMap ConnEvent.handled).Pairwise (· < ·)

/--
**The authentication gate, in every run of a connection**: the first frame goes to `Auth` and to
nothing else; `OnConnected`, `Tick` and `Handle` are called, and the worker is registered and pushed
to, only after `Auth` has returned without an error and its reply has been encoded; the later frames
that reach `Handle` do so once, in the order of their arrival, with the session from `Auth`.
-/
theorem auth_gate (c : BucketConf) (ref : Nat) (wid : UInt64) (frames : List Pack)
    (acts : List ConnAct) : EachState step AuthGate (init c ref wid frames) acts := by
  refine eachState_of_remaining
    (I := fun s _ => Gate s ∧ Positions s ∧ FrameLog s ∧ AuthOnce s) ?_ ?_
    ⟨gate_init c ref wid frames, positions_init c ref wid frames, frameLog_init c ref wid frames,
      authOnce_init c ref wid frames⟩
  · rintro s a s' - ⟨hgate, hpos, hlog, honce⟩ hstep
    exact ⟨gate_step hgate hstep, positions_step hpos hstep, frameLog_step hlog hpos hstep,
      authOnce_step honce hstep⟩
  · rintro s - ⟨hgate, -, hlog, hauth, hanswer⟩
    refine ⟨hauth.at_most_once, hanswer.at_most_once, hlog.first, hlog.arrived, hgate.events,
      fun hreg => ?_, hlog.order⟩
    obtain ⟨hok, hreplied⟩ :=
      hgate.inside (inside_of_registered (Option.isSome_iff_ne_none.mpr hreg))
    exact ⟨⟨_, hok⟩, hreplied⟩

/-- Two frames arrive: the first goes to `Auth`, and the second to `Handle`. -/
example : (run step (init ⟨16, by decide⟩ 0 16 [[1], [2]])
    [.work true, .work true, .work true, .authOk (some {}), .work true, .work true, .work true,
      .work true, .work true, .work true, .work true, .work true, .read true, .read true,
      .read true, .read true, .decrypted [2], .filtered (.passed [3]), .read true]).map
      (fun s => s.events.filter fun e => e.frame.isSome) =
    some [.auth 0 [1], .decrypt 1 {} [2], .filter 1 [2], .handle 1 {} [3]] := by
  decide +kernel

end ConnRun

end FabricaNet.Internal
