import FabricaNet.Internal.Connection
import FabricaNet.Lib.Log

/-!
# The callbacks of a connection

`OnConnected` and `OnDisconnect` come in pairs, and `AfterDisconnect` comes once
(`callbacks_pair_up`), whoever stops the worker.

* `Reach` — before `Put` nobody but `work` can come by the worker, so `TurnOff` is not called before
  the flag `connected` has its final value; from the deferred `Stop` on the worker is not registered
* `Paired` — what the log says about the callbacks, in terms of the flag and of how far the function
  passed to `TurnOff` has come; as long as that function runs, its caller waits for it
-/

namespace FabricaNet.Internal

open Go Xnet Lib

/-! ## Stages -/

/-- `work` has not called `Put` yet. -/
def ServePc.early : ServePc → Bool
  | .deadline | .decode | .auth _ _ | .authing | .encode _ | .setSession _ | .onConnected
  | .connecting | .setConnected | .put => true
  | _ => false

/-- `work` is in its first deferred function. -/
def ServePc.closing : ServePc → Bool
  | .stop | .turningOff | .afterDisconnect | .returned => true
  | _ => false

/-- `work` has called `Stop`. -/
def ServePc.hasStopped : ServePc → Bool
  | .turningOff | .afterDisconnect | .returned => true
  | _ => false

/-- The call of `OnDisconnect`, if there is one, has been made. -/
def TurnOffPc.disconnected : TurnOffPc → Bool
  | .notCalled | .connected | .onDisconnect => false
  | _ => true

namespace ConnEvent

def isOnDisconnect : ConnEvent → Bool
  | .onDisconnect _ => true
  | _ => false

def isAfterDisconnect : ConnEvent → Bool
  | .afterDisconnect => true
  | _ => false

/-- The events that the callbacks of a connection are about. -/
def ofLife : ConnEvent → Bool
  | .connected | .onDisconnect _ | .afterDisconnect => true
  | _ => false

theorem isOnDisconnect_of_not_ofLife {e : ConnEvent} (h : e.ofLife = false) :
    e.isOnDisconnect = false := by
  cases e <;> first | rfl | cases h

theorem isAfterDisconnect_of_not_ofLife {e : ConnEvent} (h : e.ofLife = false) :
    e.isAfterDisconnect = false := by
  cases e <;> first | rfl | cases h

end ConnEvent

theorem TurnOffPc.Goes.ne_notCalled {ss : Session} {b : Bool} {off off' : TurnOffPc}
    {e : Option ConnEvent} (h : off.Goes ss b e off') : off ≠ .notCalled := by
  cases h <;> nofun

theorem ReadPc.Goes.quiet {ss : Session} {pc pc' : ReadPc} {e : Option ConnEvent}
    (h : pc.Goes ss e pc') : ∀ x ∈ e, x.ofLife = false := by
  cases h <;> simp [ConnEvent.ofLife]

theorem TickPc.Goes.quiet {ss : Session} {pc pc' : TickPc} {e : Option ConnEvent}
    (h : pc.Goes ss e pc') : ∀ x ∈ e, x.ofLife = false := by
  cases h <;> simp [ConnEvent.ofLife]

namespace ConnRun

variable {s s' : ConnRun}

/-! ## What the steps leave alone -/

@[simp] theorem tell_work (e : Option ConnEvent) : (s.tell e).work = s.work := by cases e <;> rfl
@[simp] theorem tell_off (e : Option ConnEvent) : (s.tell e).off = s.off := by cases e <;> rfl
@[simp] theorem tell_calls (e : Option ConnEvent) : (s.tell e).calls = s.calls := by
  cases e <;> rfl
@[simp] theorem tell_connected (e : Option ConnEvent) : (s.tell e).connected = s.connected := by
  cases e <;> rfl
@[simp] theorem tell_registered (e : Option ConnEvent) : (s.tell e).registered = s.registered := by
  cases e <;> rfl

@[simp] theorem tell_session (e : Option ConnEvent) : (s.tell e).session = s.session := by
  cases e <;> rfl
@[simp] theorem tell_frames (e : Option ConnEvent) : (s.tell e).frames = s.frames := by
  cases e <;> rfl
@[simp] theorem tell_decoded (e : Option ConnEvent) : (s.tell e).decoded = s.decoded := by
  cases e <;> rfl
@[simp] theorem tell_read (e : Option ConnEvent) : (s.tell e).read = s.read := by cases e <;> rfl
@[simp] theorem tell_tick (e : Option ConnEvent) : (s.tell e).tick = s.tick := by cases e <;> rfl

/-- What holds of every event of a step that tells nothing. -/
theorem forall_none {p : ConnEvent → Prop} : ∀ x ∈ (none : Option ConnEvent), p x :=
  fun x hx => absurd hx (Option.not_mem_none x)

theorem tell_events (e : Option ConnEvent) : (s.tell e).events = s.events ++ e.toList := by
  cases e with
  | none => exact (List.append_nil _).symm
  | some e => rfl

@[simp] theorem setCall_self (i : Nat) (pc : ServerCallPc) : (s.setCall i pc).calls i = pc :=
  Function.update_self ..

theorem setCall_of_ne {i j : Nat} (pc : ServerCallPc) (h : j ≠ i) :
    (s.setCall i pc).calls j = s.calls j := Function.update_of_ne h ..

/-! ## Who can come by the worker -/

/-- Who can come by the worker, and when. -/
structure Reach (s : ConnRun) : Prop where
  early : s.work.early = true →
    s.off = .notCalled ∧ s.registered = none ∧ ∀ i, (s.calls i).holds = false
  /-- worker ids are distinct, so `Put` finds nobody -/
  noOld : ∀ ow, s.work ≠ .stopOld ow
  gone : s.work.closing = true → s.registered = none

theorem reach_init (c : BucketConf) (ref : Nat) (wid : UInt64) (frames : List Pack) :
    Reach (init c ref wid frames) :=
  ⟨fun _ => ⟨rfl, WorkerManager.worker_newWorkerManager c wid, fun _ => rfl⟩, nofun, nofun⟩

/-- A step of `work`. -/
theorem Reach.of_work (h : Reach s) (hoff : s'.work.early = true → s'.off = s.off)
    (hreg : s'.registered = s.registered) (hcalls : s'.calls = s.calls)
    (hearly : s'.work.early = true → s.work.early = true) (hold : ∀ ow, s'.work ≠ .stopOld ow)
    (hgone : s'.work.closing = true → s.work.early = true ∨ s.work.closing = true) :
    Reach s' := by
  refine ⟨fun he => ?_, hold, fun hc => ?_⟩
  · rw [hoff he, hreg, hcalls]
    exact h.early (hearly he)
  · rw [hreg]
    rcases hgone hc with he | hc
    · exact (h.early he).2.1
    · exact h.gone hc

/-- A step of anyone else. -/
theorem Reach.of_other (h : Reach s) (hwork : s'.work = s.work)
    (hoff : s.work.early = true → s'.off = s.off)
    (hreg : s'.registered = s.registered ∨ s'.registered = none)
    (hcalls : s.work.early = true → ∀ i, (s'.calls i).holds = true → (s.calls i).holds = true) :
    Reach s' := by
  have hnone : s.registered = none → s'.registered = none := by
    intro hs
    rcases hreg with hreg | hreg
    · exact hreg.trans hs
    · exact hreg
  refine ⟨fun he => ?_, ?_, fun hc => ?_⟩
  · rw [hwork] at he
    obtain ⟨hs, hr, hc⟩ := h.early he
    refine ⟨(hoff he).trans hs, hnone hr, fun i => ?_⟩
    by_contra hheld
    rw [Bool.not_eq_false] at hheld
    exact absurd (hcalls he i hheld) (by rw [hc i]; decide)
  · rw [hwork]
    exact h.noOld
  · rw [hwork] at hc
    exact hnone (h.gone hc)

/-- Nobody has come by the worker while `work` is early. -/
theorem Reach.not_early_of_holds (h : Reach s) {i : Nat} (hi : (s.calls i).holds = true) :
    s.work.early = false := by
  by_contra he
  rw [Bool.not_eq_false] at he
  rw [(h.early he).2.2 i] at hi
  cases hi

theorem registered_delWorker : s.delWorker.registered = none := by
  unfold registered delWorker
  rw [WorkerManager.worker_delBucket, if_pos rfl]

theorem reach_work {e : Option ConnEvent} {pc : ServePc} (h : Reach s)
    (goes : s.work.Goes s.session e pc) : Reach { s.tell e with work := pc } := by
  have hwork := h.noOld
  generalize hpc : s.work = pc₀ at goes hwork
  have hstep : ∀ {pc' : ServePc}, (pc'.early = true → pc₀.early = true) →
      (∀ ow, pc' ≠ .stopOld ow) → (pc'.closing = true → pc₀.early = true ∨ pc₀.closing = true) →
      Reach { s.tell e with work := pc' } := by
    intro pc' hearly hold hclosing
    subst hpc
    exact h.of_work (fun _ => tell_off e) (tell_registered e) (tell_calls e) hearly hold hclosing
  cases goes with
  | stoppedOld | stopOldFailed => exact absurd rfl (hwork _)
  | afterConnect | afterConnectFailed | ran => exact hstep nofun nofun nofun
  | afterDisconnect => exact hstep nofun nofun fun _ => Or.inr rfl
  | _ => exact hstep (fun _ => rfl) nofun fun _ => Or.inl rfl

theorem reach_step {a : ConnAct} (h : Reach s) (hstep : s.step a = some s') : Reach s' := by
  cases step_effect hstep with
  | work goes => exact reach_work h goes
  | decoded pc | setSession pc | setConnected pc =>
    exact h.of_work (fun _ => rfl) rfl rfl (fun _ => by rw [pc]; rfl) nofun nofun
  | put | run => exact ⟨nofun, nofun, nofun⟩
  | taken pc taken => cases (h.early (by rw [pc]; rfl)).2.1.symm.trans taken
  | delWorker => exact ⟨nofun, nofun, fun _ => registered_delWorker⟩
  | turnsOff pc => exact h.of_work nofun rfl rfl nofun nofun fun _ => by rw [pc]; exact Or.inr rfl
  | stopped pc =>
    refine h.of_work nofun rfl rfl nofun nofun fun _ => Or.inr ?_
    rcases pc with ⟨pc, -⟩ | ⟨pc, -⟩ <;> rw [pc] <;> rfl
  | read | tick =>
    exact h.of_other (tell_work _) (fun _ => tell_off _) (Or.inl (tell_registered _))
      fun _ i hi => by simpa using hi
  | readDecoded | ctxEnd => exact h.of_other rfl (fun _ => rfl) (Or.inl rfl) fun _ _ => id
  | turnOff goes =>
    refine h.of_other (tell_work _) (fun he => ?_) (Or.inl (tell_registered _))
      fun _ i hi => by simpa using hi
    exact absurd (h.early he).1 goes.ne_notCalled
  | @call i pc serverStopping notLast next holds =>
    refine h.of_other rfl (fun _ => rfl) (Or.inl rfl) fun he j hj => ?_
    by_cases hji : j = i
    · subst hji
      rw [setCall_self] at hj
      rcases holds hj with hheld | hreg
      · exact hheld
      · rw [(h.early he).2.1] at hreg
        cases hreg
    · rwa [setCall_of_ne _ hji] at hj
  | callDel pc =>
    have hlate := h.not_early_of_holds (by rw [pc]; rfl)
    exact h.of_other rfl (fun _ => rfl) (Or.inr registered_delWorker)
      fun he => absurd he (by rw [hlate]; decide)
  | pushed pc =>
    have hlate := h.not_early_of_holds (by rw [pc]; rfl)
    exact h.of_other rfl (fun _ => rfl) (Or.inl rfl) fun he => absurd he (by rw [hlate]; decide)
  | callTurnsOff pc =>
    have hlate := h.not_early_of_holds (by rw [pc]; rfl)
    exact h.of_other rfl (fun he => absurd he (by rw [hlate]; decide)) (Or.inl rfl)
      fun he => absurd he (by rw [hlate]; decide)
  | manager same => exact h.of_other rfl (fun _ => rfl) (Or.inl same) fun _ _ => id

/-! ## The callbacks -/

/-- What the log says about the callbacks. -/
structure Paired (s : ConnRun) : Prop where
  reach : Reach s
  flag : s.connected = true → .connected ∈ s.events
  event : .connected ∈ s.events → s.connected = true ∨ s.work = .setConnected
  due : s.work = .setConnected → .connected ∈ s.events
  asked : s.off = .onDisconnect → s.connected = true
  once : s.events.countP ConnEvent.isOnDisconnect =
    if s.off.disconnected = true ∧ s.connected = true then 1 else 0
  order : EachEvent (fun e pre => e.isOnDisconnect = true → .connected ∈ pre) s.events
  /-- whoever has called the function passed to `TurnOff` waits for it -/
  waits : s.off ≠ .notCalled → s.off ≠ .done →
    s.work = .turningOff ∨ ∃ i, s.calls i = .turningOff
  stopped : s.work.hasStopped = true → s.off ≠ .notCalled
  after : s.events.countP ConnEvent.isAfterDisconnect = if s.work = .returned then 1 else 0

theorem paired_init (c : BucketConf) (ref : Nat) (wid : UInt64) (frames : List Pack) :
    Paired (init c ref wid frames) :=
  ⟨reach_init c ref wid frames, nofun, nofun, nofun, nofun, rfl, eachEvent_nil,
    fun h => absurd rfl h, nofun, rfl⟩

/-- A step that has nothing to do with the callbacks. -/
theorem Paired.congr (h : Paired s) (hreach : Reach s') {e : Option ConnEvent}
    (hevents : s'.events = s.events ++ e.toList) (he : ∀ x ∈ e, x.ofLife = false)
    (hconn : s'.connected = s.connected) (hoff : s'.off = s.off)
    (hset : s'.work = .setConnected ↔ s.work = .setConnected)
    (hwaits : s.work = .turningOff ∨ (∃ i, s.calls i = .turningOff) → s.off ≠ .done →
      s'.work = .turningOff ∨ ∃ i, s'.calls i = .turningOff)
    (hstopped : s'.work.hasStopped = true → s.off ≠ .notCalled)
    (hreturned : s'.work = .returned ↔ s.work = .returned) : Paired s' := by
  have hmem : .connected ∈ s'.events ↔ .connected ∈ s.events := by
    rw [hevents, List.mem_append, Option.mem_toList]
    exact or_iff_left fun hx => absurd (he _ hx) (by decide)
  have hcount : ∀ {p : ConnEvent → Bool}, (∀ x, x.ofLife = false → p x = false) →
      s'.events.countP p = s.events.countP p := by
    intro p hp
    rw [hevents, List.countP_append, Nat.add_eq_left, List.countP_eq_zero]
    intro x hx
    rw [hp x (he x (Option.mem_toList.mp hx))]
    decide
  refine ⟨hreach, ?_, ?_, ?_, ?_, ?_, ?_, ?_, ?_, ?_⟩
  · rw [hconn, hmem]; exact h.flag
  · rw [hconn, hmem, hset]; exact h.event
  · rw [hset, hmem]; exact h.due
  · rw [hoff, hconn]; exact h.asked
  · rw [hcount fun _ => ConnEvent.isOnDisconnect_of_not_ofLife, hoff, hconn]
    exact h.once
  · rw [hevents]
    cases e with
    | none => rw [Option.toList_none, List.append_nil]; exact h.order
    | some x =>
      refine eachEvent_concat.mpr ⟨h.order, fun hx => ?_⟩
      rw [ConnEvent.isOnDisconnect_of_not_ofLife (he x rfl)] at hx
      cases hx
  · rw [hoff]
    exact fun hn hd => hwaits (h.waits hn hd) hd
  · rw [hoff]; exact hstopped
  · rw [hcount fun _ => ConnEvent.isAfterDisconnect_of_not_ofLife]
    simp only [hreturned]
    exact h.after

/-- A step of someone who neither runs `work` nor the function passed to `TurnOff`. -/
theorem Paired.of_other (h : Paired s) (hreach : Reach s') {e : Option ConnEvent}
    (hevents : s'.events = s.events ++ e.toList) (he : ∀ x ∈ e, x.ofLife = false)
    (hconn : s'.connected = s.connected) (hoff : s'.off = s.off) (hwork : s'.work = s.work)
    (hcalls : ∀ i, s.calls i = .turningOff → s.off ≠ .done → s'.calls i = .turningOff) :
    Paired s' := by
  refine h.congr hreach hevents he hconn hoff (by rw [hwork]) (fun hw hd => ?_) ?_ (by rw [hwork])
  · rw [hwork]
    exact hw.imp_right fun ⟨i, hi⟩ => ⟨i, hcalls i hi hd⟩
  · rw [hwork]
    exact h.stopped

/-- A step of `work` that has nothing to do with the callbacks. -/
theorem Paired.of_work (h : Paired s) (hreach : Reach s') {e : Option ConnEvent}
    (hevents : s'.events = s.events ++ e.toList) (he : ∀ x ∈ e, x.ofLife = false)
    (hconn : s'.connected = s.connected) (hoff : s'.off = s.off) (hcalls : s'.calls = s.calls)
    (hset : s.work ≠ .setConnected ∧ s'.work ≠ .setConnected)
    (hstopped : s.work.hasStopped = false ∧ s'.work.hasStopped = false) : Paired s' := by
  have hreturned : ∀ {pc : ServePc}, pc.hasStopped = false → pc ≠ .returned := by
    rintro pc hpc rfl
    cases hpc
  refine h.congr hreach hevents he hconn hoff ?_ (fun hw hd => ?_) ?_ ?_
  · exact iff_of_false hset.2 hset.1
  · rw [hcalls]
    rcases hw with hw | hw
    · rw [hw] at hstopped
      cases hstopped.1
    · exact Or.inr hw
  · rw [hstopped.2]
    nofun
  · exact iff_of_false (hreturned hstopped.2) (hreturned hstopped.1)

theorem paired_work {e : Option ConnEvent} {pc : ServePc} (h : Paired s)
    (goes : s.work.Goes s.session e pc) (hreach : Reach { s.tell e with work := pc }) :
    Paired { s.tell e with work := pc } := by
  generalize hpc : s.work = pc₀ at goes
  have hstep : ∀ {pc' : ServePc}, Reach { s.tell e with work := pc' } →
      (∀ x ∈ e, x.ofLife = false) → pc₀ ≠ .setConnected ∧ pc' ≠ .setConnected →
      pc₀.hasStopped = false ∧ pc'.hasStopped = false → Paired { s.tell e with work := pc' } := by
    intro pc' hreach he hset hstopped
    subst hpc
    exact h.of_work hreach (tell_events e) he (tell_connected e) (tell_off e) (tell_calls e) hset
      hstopped
  cases goes with
  | connected =>
    -- `OnConnected` returns nil
    have hoff := (h.reach.early (by rw [hpc]; rfl)).1
    refine ⟨hreach, fun _ => List.mem_append_right _ (List.mem_singleton_self _),
      fun _ => Or.inr rfl, fun _ => List.mem_append_right _ (List.mem_singleton_self _), h.asked,
      ?_, eachEvent_concat.mpr ⟨h.order, nofun⟩, fun hn => absurd hoff hn, nofun, ?_⟩
    · exact (List.countP_append ..).trans h.once
    · refine (List.countP_append ..).trans (h.after.trans ?_)
      rw [hpc]
      rfl
  | afterDisconnect =>
    refine ⟨hreach, fun hc => List.mem_append_left _ (h.flag hc), fun hx => ?_, nofun, h.asked, ?_,
      eachEvent_concat.mpr ⟨h.order, nofun⟩, fun hn hd => ?_, fun _ => ?_, ?_⟩
    · rcases List.mem_append.mp hx with hx | hx
      · rcases h.event hx with hc | hw
        · exact Or.inl hc
        · cases hpc.symm.trans hw
      · cases List.mem_singleton.mp hx
    · exact (List.countP_append ..).trans h.once
    · rcases h.waits hn hd with hw | hcall
      · cases hpc.symm.trans hw
      · exact Or.inr hcall
    · exact h.stopped (by rw [hpc]; rfl)
    · refine (List.countP_append ..).trans ?_
      rw [h.after, hpc]
      rfl
  | deadline | deadlineFailed | decodeFailed | authFailed | encodeFailed | nilSession | refused |
    stoppedOld | stopOldFailed | ran =>
    exact hstep hreach forall_none ⟨nofun, nofun⟩ ⟨rfl, rfl⟩
  | auth | authOk | replied | onConnected | afterConnect | afterConnectFailed =>
    exact hstep hreach (by simp [ConnEvent.ofLife]) ⟨nofun, nofun⟩ ⟨rfl, rfl⟩

theorem paired_turnOff {e : Option ConnEvent} {pc : TurnOffPc} (h : Paired s)
    (goes : s.off.Goes s.session s.connected e pc) (hreach : Reach { s.tell e with off := pc }) :
    Paired { s.tell e with off := pc } := by
  generalize hoff : s.off = off₀ at goes
  generalize hconn : s.connected = b at goes
  have hn : s.off ≠ .notCalled := by rw [hoff]; exact goes.ne_notCalled
  -- a step without a call of the service
  have hstep : ∀ {pc' : TurnOffPc}, off₀ ≠ .done → pc' ≠ .notCalled →
      (pc' = .onDisconnect → s.connected = true) →
      (pc'.disconnected = true ∧ s.connected = true ↔
        off₀.disconnected = true ∧ s.connected = true) →
      Reach { s with off := pc' } → Paired { s with off := pc' } := by
    intro pc' hd hn' hasked hiff hreach
    refine ⟨hreach, h.flag, h.event, h.due, hasked, ?_, h.order, fun _ _ => h.waits hn ?_,
      fun _ => hn', h.after⟩
    · rw [h.once, hoff]
      simp only [hiff]
    · rwa [hoff]
  cases goes with
  | connected => exact hstep nofun nofun (fun _ => hconn) (iff_of_false nofun nofun) hreach
  | notConnected =>
    have hfalse : ¬s.connected = true := by rw [hconn]; decide
    exact hstep nofun nofun nofun (iff_of_false (fun hc => hfalse hc.2) fun hc => hfalse hc.2)
      hreach
  | stopTunnels | closeChan | closeConn => exact hstep nofun nofun nofun Iff.rfl hreach
  | onDisconnect =>
    have hc := h.asked hoff
    have honce := h.once
    rw [hoff, if_neg nofun] at honce
    refine ⟨hreach, fun hc => List.mem_append_left _ (h.flag hc), fun hx => ?_,
      fun hw => List.mem_append_left _ (h.due hw), nofun, ?_, ?_,
      fun _ _ => h.waits hn (by rw [hoff]; nofun), fun _ => nofun, ?_⟩
    · rcases List.mem_append.mp hx with hx | hx
      · exact h.event hx
      · cases List.mem_singleton.mp hx
    · refine (List.countP_append ..).trans ?_
      rw [honce]
      exact (if_pos ⟨rfl, hc⟩).symm
    · exact eachEvent_concat.mpr ⟨h.order, fun _ => h.flag hc⟩
    · exact (List.countP_append ..).trans h.after

/-- The first call of `Stop`, by `work` or by another. -/
theorem Paired.turnsOff (h : Paired s) (hfirst : s.off = .notCalled) (hreach : Reach s')
    (hevents : s'.events = s.events) (hconn : s'.connected = s.connected)
    (hoff : s'.off = .connected) (hset : s'.work = .setConnected → s.work = .setConnected)
    (hwork : s.work = .setConnected → s'.work = .setConnected)
    (hwaits : s'.work = .turningOff ∨ ∃ i, s'.calls i = .turningOff)
    (hreturned : s'.work = .returned ↔ s.work = .returned) : Paired s' := by
  have honce := h.once
  rw [hfirst, if_neg nofun] at honce
  refine ⟨hreach, ?_, ?_, ?_, ?_, ?_, ?_, fun _ _ => hwaits, fun _ => ?_, ?_⟩
  · rw [hconn, hevents]; exact h.flag
  · rw [hconn, hevents]; exact fun hx => (h.event hx).imp_right hwork
  · rw [hevents]; exact fun hw => h.due (hset hw)
  · rw [hoff]; nofun
  · rw [hevents, hoff, honce, if_neg nofun]
  · rw [hevents]; exact h.order
  · rw [hoff]; nofun
  · rw [hevents, h.after]
    simp only [hreturned]

theorem paired_step {a : ConnAct} (h : Paired s) (hstep : s.step a = some s') : Paired s' := by
  have hreach := reach_step h.reach hstep
  have hnil : s.events = s.events ++ (none : Option ConnEvent).toList := (List.append_nil _).symm
  cases step_effect hstep with
  | work goes => exact paired_work h goes hreach
  | decoded pc | setSession pc | run pc | delWorker pc =>
    exact h.of_work hreach hnil forall_none rfl rfl rfl ⟨by rw [pc]; nofun, nofun⟩
      ⟨by rw [pc]; rfl, rfl⟩
  | setConnected pc =>
    have hoff := (h.reach.early (by rw [pc]; rfl)).1
    have honce := h.once
    rw [hoff, if_neg nofun] at honce
    refine ⟨hreach, fun _ => h.due pc, fun _ => Or.inl rfl, nofun, fun _ => rfl, ?_, h.order,
      fun hn => absurd hoff hn, nofun, ?_⟩
    · rw [hoff, if_neg nofun]; exact honce
    · rw [h.after, pc]; rfl
  | put pc =>
    exact h.of_work (e := some .registered) hreach rfl (by simp [ConnEvent.ofLife]) rfl rfl rfl
      ⟨by rw [pc]; nofun, nofun⟩ ⟨by rw [pc]; rfl, rfl⟩
  | taken pc taken => exact absurd rfl (hreach.noOld _)
  | turnsOff pc first =>
    exact h.turnsOff first hreach rfl rfl rfl nofun (by rw [pc]; nofun) (Or.inl rfl)
      (iff_of_false nofun (by rw [pc]; nofun))
  | stopped pc =>
    have hpc : s.work ≠ .setConnected ∧ s.work ≠ .returned := by
      rcases pc with ⟨pc, -⟩ | ⟨pc, -⟩ <;> rw [pc] <;> exact ⟨nofun, nofun⟩
    refine h.congr (e := none) hreach hnil forall_none rfl rfl (iff_of_false nofun hpc.1)
      (fun hw hd => ?_) (fun _ => ?_) (iff_of_false nofun hpc.2)
    · rcases pc with ⟨pc, -⟩ | ⟨-, hdone⟩
      · exact Or.inr (hw.resolve_left (by rw [pc]; nofun))
      · exact absurd hdone hd
    · rcases pc with ⟨-, hn⟩ | ⟨-, hdone⟩
      · exact hn
      · rw [hdone]; nofun
  | read ctxDone goes =>
    exact h.of_other hreach (tell_events _) goes.quiet (tell_connected _) (tell_off _) (tell_work _)
      fun i hi _ => by simpa using hi
  | tick ctxDone goes =>
    exact h.of_other hreach (tell_events _) goes.quiet (tell_connected _) (tell_off _) (tell_work _)
      fun i hi _ => by simpa using hi
  | readDecoded | ctxEnd | manager =>
    exact h.of_other hreach hnil forall_none rfl rfl rfl fun _ hi _ => hi
  | turnOff goes => exact paired_turnOff h goes hreach
  | @call i pc serverStopping notLast next holds =>
    refine h.of_other hreach hnil forall_none rfl rfl rfl fun j hj hd => ?_
    have hji : j ≠ i := by
      rintro rfl
      rw [hj] at notLast
      exact notLast.elim nofun hd
    rw [setCall_of_ne _ hji]
    exact hj
  | @callDel i pc =>
    refine h.of_other hreach hnil forall_none rfl rfl rfl fun j hj _ => ?_
    have hji : j ≠ i := by
      rintro rfl
      cases pc.symm.trans hj
    exact (setCall_of_ne (s := s.delWorker) _ hji).trans hj
  | @pushed i pc =>
    refine h.of_other (e := some .pushed) hreach rfl (by simp [ConnEvent.ofLife]) rfl rfl rfl
      fun j hj _ => ?_
    have hji : j ≠ i := by
      rintro rfl
      cases pc.symm.trans hj
    exact (setCall_of_ne (s := s.log .pushed) _ hji).trans hj
  | @callTurnsOff i pc first =>
    exact h.turnsOff first hreach rfl rfl rfl id id (Or.inr ⟨i, setCall_self i .turningOff⟩) Iff.rfl

/-! ## The result -/

/-- `work` and all calls that were made have returned. -/
def AllReturned (s : ConnRun) : Prop :=
  s.work = .returned ∧ ∀ i, s.calls i = .idle ∨ s.calls i = .returned

/-- How the callbacks of a connection pair up. -/
structure CallbacksPairUp (s : ConnRun) : Prop where
  /-- `OnDisconnect` is not called before `OnConnected` has returned nil -/
  order : EachEvent (fun e pre => e.isOnDisconnect = true → .connected ∈ pre) s.events
  at_most_once : s.events.countP ConnEvent.isOnDisconnect ≤ 1
  never : .connected ∉ s.events → s.events.countP ConnEvent.isOnDisconnect = 0
  once : s.AllReturned → .connected ∈ s.events → s.events.countP ConnEvent.isOnDisconnect = 1
  after_at_most_once : s.events.countP ConnEvent.isAfterDisconnect ≤ 1
  after : s.work = .returned → s.events.countP ConnEvent.isAfterDisconnect = 1
  unregistered : s.work = .returned → s.manager.worker s.wid = none

theorem Paired.callbacksPairUp (h : Paired s) : CallbacksPairUp s := by
  refine ⟨h.order, ?_, fun hno => ?_, fun hall hyes => ?_, ?_, fun hw => ?_, fun hw => ?_⟩
  · rw [h.once]
    split <;> decide
  · rw [h.once, if_neg fun hc => hno (h.flag hc.2)]
  · obtain ⟨hw, hcalls⟩ := hall
    -- the caller of the function has returned, so the function has
    have hdone : s.off = .done := by
      by_contra hd
      rcases h.waits (h.stopped (by rw [hw]; rfl)) hd with hw' | ⟨i, hi⟩
      · cases hw.symm.trans hw'
      · rcases hcalls i with hc | hc <;> cases hi.symm.trans hc
    have hconn : s.connected = true := by
      rcases h.event hyes with hc | hw'
      · exact hc
      · cases hw.symm.trans hw'
    rw [h.once, hdone, if_pos ⟨rfl, hconn⟩]
  · rw [h.after]
    split <;> decide
  · rw [h.after, if_pos hw]
  · exact h.reach.gone (by rw [hw]; rfl)

/--
**Callbacks pair up, in every run of a connection**: whatever fails, and whoever stops the worker,
`OnDisconnect` follows `OnConnected` exactly once if `OnConnected` has returned nil, and not at all
otherwise; `AfterDisconnect` runs once, and the registry has no worker for the connection then.
-/
theorem callbacks_pair_up (c : BucketConf) (ref : Nat) (wid : UInt64) (frames : List Pack)
    (acts : List ConnAct) : EachState step CallbacksPairUp (init c ref wid frames) acts :=
  eachState_of_remaining (I := fun s _ => Paired s) (fun _ _ _ _ h hstep => paired_step h hstep)
    (fun _ _ h => h.callbacksPairUp) (paired_init c ref wid frames)

end ConnRun

end FabricaNet.Internal
