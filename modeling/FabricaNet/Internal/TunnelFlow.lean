import FabricaNet.Internal.PushErr
import FabricaNet.Internal.ReadLoop
import FabricaNet.Internal.Tunnel
import FabricaNet.Lib.Run

/-!
# A tunnel as a whole

`Tunnel.run` of `internal/tunnel.go`: the goroutine that waits for the stop, `csLoop` and `scLoop`
in one errgroup, and `stop` behind `eg.Wait`. The queue, its loop and the parts of `stop` are those
of `FabricaNet/Internal/Tunnel.lean`; the errors of `Push` are those of
`FabricaNet/Internal/PushErr.lean`.

The first goroutine of an errgroup that returns an error ends the context of the others, and its
error is what `eg.Wait` returns. All three return errors only. A panic of the application in
`csLoop` or `scLoop` is an error too, because of `xsync.Run`.

A tunnel has no `Stop` of its own. What `TunnelManager` and `newTunnel` call is that of
`xsync.Stoppable`, of which it is assumed that it is `TurnOff` with a function that does nothing,
and that `TurnOff` sets what `OnStopping` returns, closes `StopTriggered`, and runs the function of
its first caller only. So there are two ways to end. When the context ends or a loop fails, `stop`
is the first caller: it closes `csChan` and calls `OnStop`. After a `Stop` the goroutines return as
well, but then `stop` is refused: `csChan` stays open, and `OnStop` is never called.

* `TunnelFlow.Inv` is kept by every step
* `TunnelFlow.lifecycle` says what it means for both directions and for both ends of the tunnel
-/

namespace FabricaNet.Internal

open Go Lib Xnet

/-! ## Steps of the queue -/

namespace TunnelRun

variable {M : Type}

/-- What an action does to the queue. -/
inductive Goes (s : TunnelRun M) : TunnelAct M → TunnelRun M → Prop
  | forward {i p} (hpc : s.forwards i = .idle) : Goes s (.forward i p) (s.setForward i (.check p))
  | refused {i p} (hpc : s.forwards i = .check p) (hstop : s.stopping = true) :
    Goes s (.forwardStep i) (s.setForward i (.returned (some errIsStopped)))
  | looked {i p} (hpc : s.forwards i = .check p) (hstop : s.stopping = false) :
    Goes s (.forwardStep i) (s.setForward i (.send p))
  | sent {i p c} (hpc : s.forwards i = .send p) (hsend : s.csChan.send p = .done c) :
    Goes s (.forwardStep i) ({ s with csChan := c }.setForward i (.returned none))
  | panicked {i p} (hpc : s.forwards i = .send p) (hsend : s.csChan.send p = .panic) :
    Goes s (.forwardStep i) (s.setForward i .panicked)
  | stop (hstop : s.stop = .notCalled) (hloop : s.loop = .exited) :
    Goes s .stopStep { s with stopping := true, stop := .closeChan }
  | close (hstop : s.stop = .closeChan) :
    Goes s .stopStep { s with csChan := s.csChan.close, stop := .onStop }
  | onStop (hstop : s.stop = .onStop) : Goes s .stopStep { s with stop := .done }
  | cancel : Goes s .cancel { s with ctxDone := true }
  | loopDone (hloop : s.loop = .select) (hctx : s.ctxDone = true) :
    Goes s .loopDone { s with loop := .exited }
  | ended (hloop : s.loop = .select) (hrecv : s.csChan.recv = .ended) :
    Goes s .loopRecv { s with loop := .exited, ctxDone := true }
  | got {p c} (hloop : s.loop = .select) (hrecv : s.csChan.recv = .got p c) :
    Goes s .loopRecv { s with csChan := c, loop := .handling p }
  | handled {p} (hloop : s.loop = .handling p) : Goes s (.handle true) { s with loop := .select }
  | failed {p} (hloop : s.loop = .handling p) :
    Goes s (.handle false) { s with loop := .exited, ctxDone := true }

theorem goes_of_forwardStep {s s' : TunnelRun M} {i : Nat} (h : s.forwardStep i = some s') :
    s.Goes (.forwardStep i) s' := by
  unfold forwardStep at h
  split at h
  · next hpc =>
    split at h
    · next hstop => cases h; exact .refused hpc hstop
    · next hstop => cases h; exact .looked hpc (Bool.eq_false_iff.mpr hstop)
  · next hpc =>
    split at h
    · cases h
    · next hsend => cases h; exact .panicked hpc hsend
    · next hsend => cases h; exact .sent hpc hsend
  · cases h

theorem goes_of_stopStep {s s' : TunnelRun M} (h : s.stopStep = some s') : s.Goes .stopStep s' := by
  unfold stopStep at h
  split at h
  · next hstop =>
    split at h
    · next hloop => cases h; exact .stop hstop hloop
    · cases h
  · next hstop => cases h; exact .close hstop
  · next hstop => cases h; exact .onStop hstop
  · cases h

theorem goes_of_step {s s' : TunnelRun M} {a : TunnelAct M} (h : s.step a = some s') :
    s.Goes a s' := by
  cases a with
  | forward i p =>
    simp only [step] at h
    split at h
    · next hpc => cases h; exact .forward hpc
    · cases h
  | forwardStep i => exact goes_of_forwardStep h
  | stopStep => exact goes_of_stopStep h
  | cancel => cases h; exact .cancel
  | loopDone =>
    simp only [step] at h
    split at h
    · next hloop =>
      split at h
      · next hctx => cases h; exact .loopDone hloop hctx
      · cases h
    · cases h
  | loopRecv =>
    simp only [step] at h
    split at h
    · next hloop =>
      unfold loopRecv at h
      split at h
      · cases h
      · next hrecv => cases h; exact .ended hloop hrecv
      · next hrecv => cases h; exact .got hloop hrecv
    · cases h
  | handle ok =>
    simp only [step] at h
    split at h
    · next hloop =>
      cases ok with
      | true => cases h; exact .handled hloop
      | false => cases h; exact .failed hloop
    · cases h

end TunnelRun

/-! ## The tunnel -/

/-- Where `scLoop` is. -/
inductive ScPc (M : Type) where
  | select
  /-- `SCHandle` is next, and may block -/
  | handle
  /-- `TunnelMsgToPack` of the message is next -/
  | pack (msg : M)
  /-- `Push` of the pack that the message has become is next -/
  | push (msg : M) (pack : Pack)
  | exited

/-- The message that `scLoop` has got and not yet pushed. -/
def ScPc.inHand {M : Type} : ScPc M → List M
  | .pack msg => [msg]
  | .push msg _ => [msg]
  | _ => []

structure TunnelFlow (M : Type) where
  /-- `csChan`, `csLoop` and `stop` -/
  queue : TunnelRun M
  /-- `Stop` was called before `stop`: it has closed `StopTriggered`, and `stop` is refused -/
  triggered : Bool
  /-- `run` has returned with a `stop` that was refused -/
  refused : Bool
  /-- the goroutine that waits for the stop has not returned -/
  watching : Bool
  sc : ScPc M
  errs : PushErrs
  /-- the error that the errgroup has kept -/
  err : Option Err
  /-- what `Forward` has put into `csChan` -/
  accepted : List M
  /-- what `CSHandle` was called with -/
  handled : List M
  /-- what `SCHandle` has returned -/
  emitted : List M
  /-- what `Push` was called for, with the pack and the error that it has returned -/
  offered : List (M × Pack × Option Err)
  /-- the reasons that `OnStop` was called with -/
  onStop : List (Option Err)

inductive TunnelFlowAct (M : Type) where
  /-- the `i`-th call of `Forward` -/
  | forward (i : Nat) (p : M)
  | forwardStep (i : Nat)
  /-- `Stop` of `xsync.Stoppable` is called -/
  | trigger
  /-- the context that `run` was called with ends -/
  | cancel
  /-- the first goroutine takes the case `<-ctx.Done()` -/
  | watchDone
  /-- the first goroutine takes the case `<-t.StopTriggered()` -/
  | watchTriggered
  /-- `csLoop` takes the case `<-ctx.Done()` -/
  | csDone
  /-- `csLoop` takes the case `<-t.csChan` -/
  | csRecv
  /-- `CSHandle` returns -/
  | csHandle (err : Option Err)
  /-- the `select` of `scLoop`, which does not block -/
  | scSelect
  /-- `SCHandle` returns -/
  | scHandle (r : Except Err M)
  /-- `TunnelMsgToPack` returns -/
  | scPack (r : Except Err Pack)
  /-- `Push` returns; the clock reads `now` after it -/
  | scPush (err : Option Err) (now : Nat)
  /-- the call of `stop` when `eg.Wait` has returned, and then its next part -/
  | stopStep

/-- The error of `csLoop` when it finds `csChan` closed. -/
def errCsChannelClosed : Err := .new "cs channel closed"

namespace TunnelFlow

variable {M : Type}

/-- What `newTunnel` returns, with `run` started. -/
def init : TunnelFlow M where
  queue := TunnelRun.init
  triggered := false
  refused := false
  watching := true
  sc := .select
  errs := PushErrs.init
  err := none
  accepted := []
  handled := []
  emitted := []
  offered := []
  onStop := []

/-- A goroutine returns `e` to the errgroup. -/
def leave (s : TunnelFlow M) (e : Err) : TunnelFlow M :=
  { s with queue := { s.queue with ctxDone := true }, err := some (s.err.getD e) }

/-- What a step of the `i`-th `Forward` has put into the channel. -/
def sentBy (pc pc' : ForwardPc M) : List M :=
  match pc, pc' with
  | .send p, .returned none => [p]
  | _, _ => []

/-- The turn of `scLoop` after `Push` has returned. -/
def pushed (s : TunnelFlow M) (msg : M) (pack : Pack) (err : Option Err) (now : Nat) :
    TunnelFlow M :=
  let s := { s with offered := s.offered ++ [(msg, pack, err)] }
  match err with
  | none => { s with sc := .select, errs := { s.errs with recordPushErrCount := 0 } }
  | some e =>
    let r := recordPushErr s.errs ⟨now⟩
    if r.1 then { s with sc := .exited, errs := r.2 }.leave e
    else { s with sc := .select, errs := r.2 }

/-- `scLoop`. -/
def scStep (s : TunnelFlow M) : TunnelFlowAct M → Option (TunnelFlow M)
  | .scSelect =>
    match s.sc with
    | .select =>
      if s.queue.ctxDone then some ({ s with sc := .exited }.leave errContext)
      else some { s with sc := .handle }
    | _ => none
  | .scHandle r =>
    match s.sc with
    | .handle =>
      match r with
      | .ok msg => some { s with sc := .pack msg, emitted := s.emitted ++ [msg] }
      | .error e => some ({ s with sc := .exited }.leave e)
    | _ => none
  | .scPack r =>
    match s.sc with
    | .pack msg =>
      match r with
      | .ok pack => some { s with sc := .push msg pack }
      | .error e => some ({ s with sc := .exited }.leave e)
    | _ => none
  | .scPush err now =>
    match s.sc with
    | .push msg pack => some (s.pushed msg pack err now)
    | _ => none
  | _ => none

/-- `eg.Wait` can return. -/
def waited (s : TunnelFlow M) : Bool :=
  !s.watching &&
    match s.queue.loop, s.sc with
    | .exited, .exited => true
    | _, _ => false

def step (s : TunnelFlow M) : TunnelFlowAct M → Option (TunnelFlow M)
  | .forward i p => (s.queue.step (.forward i p)).map fun q => { s with queue := q }
  | .forwardStep i => (s.queue.step (.forwardStep i)).map fun q =>
      { s with queue := q, accepted := s.accepted ++ sentBy (s.queue.forwards i) (q.forwards i) }
  | .trigger =>
    if s.queue.stopping then some s
    else some { s with triggered := true, queue := { s.queue with stopping := true } }
  | .cancel => (s.queue.step .cancel).map fun q => { s with queue := q }
  | .watchDone =>
    if s.watching ∧ s.queue.ctxDone then some ({ s with watching := false }.leave errContext)
    else none
  | .watchTriggered =>
    if s.watching ∧ s.triggered then some ({ s with watching := false }.leave errStopByTrigger)
    else none
  | .csDone => (s.queue.step .loopDone).map fun q => { s with queue := q }.leave errContext
  | .csRecv => (s.queue.step .loopRecv).map fun q =>
      match q.loop with
      | .handling p => { s with queue := q, handled := s.handled ++ [p] }
      | _ => { s with queue := q }.leave errCsChannelClosed
  | .csHandle none => (s.queue.step (.handle true)).map fun q => { s with queue := q }
  | .csHandle (some e) => (s.queue.step (.handle false)).map fun q => { s with queue := q }.leave e
  | .stopStep =>
    if s.queue.stop = .notCalled ∧ !s.waited then none
    -- `TurnOff` does not run a second function
    else if s.triggered then if s.refused then none else some { s with refused := true }
    else (s.queue.step .stopStep).map fun q =>
      { s with
        queue := q, onStop := if s.queue.stop = .onStop then s.onStop ++ [s.err] else s.onStop }
  | a => s.scStep a

/-! ## What every step keeps -/

/-- What holds between the goroutines, the logs and `stop`. -/
structure Inv (s : TunnelFlow M) : Prop where
  received : s.accepted = s.handled ++ s.queue.csChan.buf
  sent : ∃ last, s.emitted = s.offered.map Prod.fst ++ last ∧ last.length ≤ 1 ∧
    (s.sc ≠ .exited → last = s.sc.inHand)
  left : s.watching = false ∨ s.queue.loop = .exited ∨ s.sc = .exited →
    s.queue.ctxDone = true ∧ s.err ≠ none
  waited : s.queue.stop ≠ .notCalled →
    s.watching = false ∧ s.queue.loop = .exited ∧ s.sc = .exited
  closed : s.queue.csChan.closed = true → s.queue.stop = .onStop ∨ s.queue.stop = .done
  onStop : s.onStop = if s.queue.stop = .done then [s.err] else []
  stopping : s.queue.stop ≠ .notCalled → s.queue.stopping = true
  triggered : s.triggered = true → s.queue.stop = .notCalled
  refused : s.refused = true → s.watching = false ∧ s.queue.loop = .exited ∧ s.sc = .exited

theorem inv_init : (init : TunnelFlow M).Inv where
  received := rfl
  sent := ⟨[], rfl, Nat.zero_le 1, fun _ => rfl⟩
  left := by rintro (h | h | h) <;> cases h
  waited := fun h => absurd rfl h
  closed := nofun
  onStop := rfl
  stopping := fun h => absurd rfl h
  triggered := nofun
  refused := nofun

/-- `stop` has not been called, so `csChan` is open and `OnStop` was not called. -/
structure Running (s : TunnelFlow M) : Prop where
  stop : s.queue.stop = .notCalled
  closed : s.queue.csChan.closed = false
  onStop : s.onStop = []
  refused : s.refused = false

/-- As long as one of the goroutines has not returned, `stop` is not called. -/
theorem Inv.running {s : TunnelFlow M} (h : s.Inv)
    (hrun : s.watching = true ∨ s.queue.loop ≠ .exited ∨ s.sc ≠ .exited) : s.Running := by
  have hnot : ¬(s.watching = false ∧ s.queue.loop = .exited ∧ s.sc = .exited) := by
    rintro ⟨hw, hl, hsc⟩
    rcases hrun with hrun | hrun | hrun
    · rw [hw] at hrun; cases hrun
    · exact hrun hl
    · exact hrun hsc
  have hstop : s.queue.stop = .notCalled := by
    by_contra hne
    exact hnot (h.waited hne)
  refine ⟨hstop, Bool.eq_false_iff.mpr fun hc => ?_, ?_, Bool.eq_false_iff.mpr fun hr => ?_⟩
  · rcases h.closed hc with h' | h' <;> rw [hstop] at h' <;> cases h'
  · rw [h.onStop, hstop]; rfl
  · exact hnot (h.refused hr)

/-- Before `stop`, the invariant is about the logs and about who has returned. -/
theorem Running.inv {s : TunnelFlow M} (h : s.Running)
    (hreceived : s.accepted = s.handled ++ s.queue.csChan.buf)
    (hsent : ∃ last, s.emitted = s.offered.map Prod.fst ++ last ∧ last.length ≤ 1 ∧
      (s.sc ≠ .exited → last = s.sc.inHand))
    (hleft : s.watching = false ∨ s.queue.loop = .exited ∨ s.sc = .exited →
      s.queue.ctxDone = true ∧ s.err ≠ none) : s.Inv where
  received := hreceived
  sent := hsent
  left := hleft
  waited := fun hne => absurd h.stop hne
  closed := fun hc => by rw [h.closed] at hc; cases hc
  onStop := by rw [h.onStop, h.stop]; rfl
  stopping := fun hne => absurd h.stop hne
  triggered := fun _ => h.stop
  refused := fun hr => by rw [h.refused] at hr; cases hr

/-- A goroutine that returns its error leaves a state in which the others have to return. -/
theorem Running.leave {s : TunnelFlow M} (h : s.Running)
    (hreceived : s.accepted = s.handled ++ s.queue.csChan.buf)
    (hsent : ∃ last, s.emitted = s.offered.map Prod.fst ++ last ∧ last.length ≤ 1 ∧
      (s.sc ≠ .exited → last = s.sc.inHand)) {e : Err} : (s.leave e).Inv :=
  Running.inv ⟨h.stop, h.closed, h.onStop, h.refused⟩ hreceived hsent
    fun _ => ⟨rfl, Option.some_ne_none _⟩

theorem Inv.emitted_eq {s : TunnelFlow M} (h : s.Inv) (hsc : s.sc ≠ .exited) :
    s.emitted = s.offered.map Prod.fst ++ s.sc.inHand := by
  obtain ⟨last, hemitted, _, hlast⟩ := h.sent
  rw [hemitted, hlast hsc]

/-- A turn of `scLoop` that goes on. -/
theorem Inv.scGoes {s s' : TunnelFlow M} (h : s.Inv) (hsc : s.sc ≠ .exited)
    (hsc' : s'.sc ≠ .exited) (hqueue : s'.queue = s.queue) (hwatching : s'.watching = s.watching)
    (herr : s'.err = s.err) (haccepted : s'.accepted = s.accepted)
    (hhandled : s'.handled = s.handled) (honStop : s'.onStop = s.onStop)
    (hrefused : s'.refused = s.refused)
    (hemitted : s'.emitted = s'.offered.map Prod.fst ++ s'.sc.inHand) : s'.Inv := by
  have hrun := h.running (.inr (.inr hsc))
  refine Running.inv ⟨?_, ?_, ?_, ?_⟩ ?_ ⟨s'.sc.inHand, hemitted, ?_, fun _ => rfl⟩ ?_
  · rw [hqueue]; exact hrun.stop
  · rw [hqueue]; exact hrun.closed
  · rw [honStop]; exact hrun.onStop
  · rw [hrefused]; exact hrun.refused
  · rw [haccepted, hhandled, hqueue]; exact h.received
  · cases s'.sc <;> simp [ScPc.inHand]
  · rw [hqueue, hwatching, herr]
    exact fun hl => h.left (hl.imp_right (.imp_right fun hex => absurd hex hsc'))

/-- `scLoop` returns: the message in hand is not pushed. -/
theorem Inv.scLeave {s : TunnelFlow M} (h : s.Inv) (hsc : s.sc ≠ .exited) (e : Err) :
    ({ s with sc := .exited }.leave e).Inv := by
  have hrun : Running { s with sc := .exited } :=
    { h.running (.inr (.inr hsc)) with }
  refine hrun.leave h.received ?_
  obtain ⟨last, hemitted, hlen, _⟩ := h.sent
  exact ⟨last, hemitted, hlen, fun hne => absurd rfl hne⟩

theorem Inv.pushed {s : TunnelFlow M} (h : s.Inv) {msg : M} {pack : Pack}
    (hsc : s.sc = .push msg pack) (err : Option Err) (now : Nat) :
    (s.pushed msg pack err now).Inv := by
  have hne : s.sc ≠ .exited := by rw [hsc]; nofun
  have hemitted : s.emitted = (s.offered ++ [(msg, pack, err)]).map Prod.fst ++ [] := by
    rw [h.emitted_eq hne, hsc, List.map_append, List.append_nil]; rfl
  unfold TunnelFlow.pushed
  cases err with
  | none => exact h.scGoes hne nofun rfl rfl rfl rfl rfl rfl rfl hemitted
  | some e =>
    dsimp only
    split
    · have hrun := h.running (.inr (.inr hne))
      refine Running.leave ?_ ?_ ?_
      · exact { hrun with }
      · exact h.received
      · exact ⟨[], hemitted, Nat.zero_le 1, fun hne' => absurd rfl hne'⟩
    · exact h.scGoes hne nofun rfl rfl rfl rfl rfl rfl rfl hemitted

theorem Inv.scStep {s s' : TunnelFlow M} (h : s.Inv) {a : TunnelFlowAct M}
    (hs : s.scStep a = some s') : s'.Inv := by
  unfold TunnelFlow.scStep at hs
  split at hs
  · split at hs
    · next hsc =>
      have hne : s.sc ≠ .exited := by rw [hsc]; nofun
      split at hs
      · cases hs; exact h.scLeave hne errContext
      · cases hs
        refine h.scGoes hne nofun rfl rfl rfl rfl rfl rfl rfl ?_
        rw [h.emitted_eq hne, hsc]; rfl
    · cases hs
  · split at hs
    · next hsc =>
      have hne : s.sc ≠ .exited := by rw [hsc]; nofun
      split at hs
      · next msg =>
        cases hs
        refine h.scGoes hne nofun rfl rfl rfl rfl rfl rfl rfl ?_
        rw [h.emitted_eq hne, hsc]
        exact congrArg (· ++ [msg]) (List.append_nil _)
      · next e => cases hs; exact h.scLeave hne e
    · cases hs
  · split at hs
    · next hsc =>
      have hne : s.sc ≠ .exited := by rw [hsc]; nofun
      split at hs
      · cases hs
        refine h.scGoes hne nofun rfl rfl rfl rfl rfl rfl rfl ?_
        rw [h.emitted_eq hne, hsc]; rfl
      · next e => cases hs; exact h.scLeave hne e
    · cases hs
  · split at hs
    · next hsc => cases hs; exact h.pushed hsc _ _
    · cases hs
  · cases hs

/-- A step of the queue that moves no message and after which `csLoop` has not returned. -/
theorem Inv.setQueue {s : TunnelFlow M} (h : s.Inv) {q : TunnelRun M}
    (hchan : q.csChan = s.queue.csChan) (hstop : q.stop = s.queue.stop)
    (hloop : q.loop = .exited ↔ s.queue.loop = .exited)
    (hctx : s.queue.ctxDone = true → q.ctxDone = true) (hstopping : q.stopping = s.queue.stopping) :
    { s with queue := q }.Inv where
  received := by
    change s.accepted = s.handled ++ q.csChan.buf
    rw [hchan]; exact h.received
  sent := h.sent
  left := fun hl => by
    obtain ⟨hdone, herr⟩ := h.left (hl.imp_right (.imp_left hloop.mp))
    exact ⟨hctx hdone, herr⟩
  waited := fun hne => by
    obtain ⟨hw, hl, hsc⟩ := h.waited (hstop ▸ hne)
    exact ⟨hw, hloop.mpr hl, hsc⟩
  closed := fun hc => by
    change q.stop = .onStop ∨ q.stop = .done
    rw [hstop]
    exact h.closed (hchan ▸ hc)
  onStop := by
    change s.onStop = if q.stop = .done then [s.err] else []
    rw [hstop]; exact h.onStop
  stopping := fun hne => hstopping.trans (h.stopping (hstop ▸ hne))
  triggered := fun ht => hstop.trans (h.triggered ht)
  refused := fun hr => by
    obtain ⟨hw, hl, hsc⟩ := h.refused hr
    exact ⟨hw, hloop.mpr hl, hsc⟩

theorem Inv.forwardStep {s : TunnelFlow M} (h : s.Inv) {i : Nat} {q : TunnelRun M}
    (hq : s.queue.Goes (.forwardStep i) q) :
    { s with
      queue := q
      accepted := s.accepted ++ sentBy (s.queue.forwards i) (q.forwards i) }.Inv := by
  cases hq with
  | refused hpc _ =>
    rw [hpc]
    simp only [sentBy, List.append_nil]
    exact h.setQueue rfl rfl .rfl id rfl
  | looked hpc _ =>
    rw [hpc]
    simp only [sentBy, List.append_nil]
    exact h.setQueue rfl rfl .rfl id rfl
  | panicked hpc _ =>
    rw [hpc]
    simp only [TunnelRun.setForward, Function.update_self, sentBy, List.append_nil]
    exact h.setQueue rfl rfl .rfl id rfl
  | @sent _ p c hpc hsend =>
    obtain ⟨hopen, rfl⟩ := Chan.send_eq_done hsend
    rw [hpc]
    simp only [TunnelRun.setForward, Function.update_self, sentBy]
    refine { h with received := ?_, closed := ?_ }
    · change s.accepted ++ [p] = s.handled ++ (s.queue.csChan.buf ++ [p])
      rw [h.received, List.append_assoc]
    · exact fun hc => absurd (hopen.symm.trans hc) Bool.false_ne_true

theorem Inv.csRecv {s : TunnelFlow M} (h : s.Inv) {q : TunnelRun M}
    (hq : s.queue.Goes .loopRecv q) :
    (match q.loop with
      | .handling p => { s with queue := q, handled := s.handled ++ [p] }
      | _ => { s with queue := q }.leave errCsChannelClosed : TunnelFlow M).Inv := by
  cases hq with
  | ended hloop hrecv =>
    -- the channel is closed behind `csLoop` only
    have hrun := h.running (.inr (.inl (by rw [hloop]; nofun)))
    have hclosed := (Chan.recv_eq_ended hrecv).1
    rw [hrun.closed] at hclosed
    cases hclosed
  | @got p c hloop hrecv =>
    have hrun := h.running (.inr (.inl (by rw [hloop]; nofun)))
    obtain ⟨hbuf, _, hclosed⟩ := Chan.recv_eq_got hrecv
    refine Running.inv ⟨hrun.stop, hclosed.trans hrun.closed, hrun.onStop, hrun.refused⟩ ?_
      h.sent ?_
    · change s.accepted = s.handled ++ [p] ++ c.buf
      rw [h.received, hbuf, List.append_assoc]; rfl
    · rintro (hw | hl | hsc)
      · exact h.left (.inl hw)
      · cases hl
      · exact h.left (.inr (.inr hsc))

theorem waited_iff {s : TunnelFlow M} :
    s.waited = true ↔ s.watching = false ∧ s.queue.loop = .exited ∧ s.sc = .exited := by
  unfold TunnelFlow.waited
  cases s.watching <;> cases s.queue.loop <;> cases s.sc <;> simp

theorem Inv.stopStep {s : TunnelFlow M} (h : s.Inv) {q : TunnelRun M}
    (hwait : s.queue.stop = .notCalled → s.waited = true) (hfirst : s.triggered = false)
    (hq : s.queue.Goes .stopStep q) :
    { s with
      queue := q
      onStop :=
        if s.queue.stop = TunnelStopPc.onStop then s.onStop ++ [s.err] else s.onStop }.Inv := by
  have honStop := h.onStop
  have htriggered {P : Prop} (ht : s.triggered = true) : P := by rw [hfirst] at ht; cases ht
  cases hq with
  | stop hstop hloop =>
    rw [hstop] at honStop
    refine { h with
      waited := fun _ => waited_iff.mp (hwait hstop), closed := ?_, onStop := ?_,
      stopping := fun _ => rfl, triggered := htriggered }
    · intro hc
      rcases h.closed hc with h' | h' <;> rw [hstop] at h' <;> cases h'
    · simpa [hstop] using honStop
  | close hstop =>
    have hne : s.queue.stop ≠ .notCalled := by rw [hstop]; nofun
    rw [hstop] at honStop
    refine { h with
      waited := fun _ => h.waited hne, closed := fun _ => .inl rfl, onStop := ?_,
      stopping := fun _ => h.stopping hne, triggered := htriggered }
    simpa [hstop] using honStop
  | onStop hstop =>
    have hne : s.queue.stop ≠ .notCalled := by rw [hstop]; nofun
    rw [hstop] at honStop
    refine { h with
      waited := fun _ => h.waited hne, closed := fun _ => .inr rfl, onStop := ?_,
      stopping := fun _ => h.stopping hne, triggered := htriggered }
    simpa [hstop] using honStop

/-- `Stop` is called. -/
theorem Inv.trigger {s : TunnelFlow M} (h : s.Inv) (hfirst : s.queue.stopping = false) :
    { s with triggered := true, queue := { s.queue with stopping := true } }.Inv := by
  refine { h with stopping := fun _ => rfl, triggered := fun _ => ?_ }
  by_contra hne
  have hstopping := h.stopping hne
  rw [hfirst] at hstopping
  cases hstopping

/-- **Every step keeps the invariant.** -/
theorem Inv.step {s s' : TunnelFlow M} (h : s.Inv) {a : TunnelFlowAct M} (hs : s.step a = some s') :
    s'.Inv := by
  cases a with
  | forward i p =>
    obtain ⟨q, hq, rfl⟩ := Option.map_eq_some_iff.mp hs
    cases TunnelRun.goes_of_step hq
    exact h.setQueue rfl rfl .rfl id rfl
  | forwardStep i =>
    obtain ⟨q, hq, rfl⟩ := Option.map_eq_some_iff.mp hs
    exact h.forwardStep (TunnelRun.goes_of_step hq)
  | trigger =>
    simp only [TunnelFlow.step] at hs
    split at hs
    · cases hs; exact h
    · next hfirst => cases hs; exact h.trigger (Bool.eq_false_iff.mpr hfirst)
  | cancel => cases hs; exact h.setQueue rfl rfl .rfl (fun _ => rfl) rfl
  | watchDone =>
    obtain ⟨⟨hw, _⟩, hs⟩ := Option.ite_none_right_eq_some.mp hs
    cases hs
    refine Running.leave ?_ ?_ ?_
    exacts [{ h.running (.inl hw) with }, h.received, h.sent]
  | watchTriggered =>
    obtain ⟨⟨hw, _⟩, hs⟩ := Option.ite_none_right_eq_some.mp hs
    cases hs
    refine Running.leave ?_ ?_ ?_
    exacts [{ h.running (.inl hw) with }, h.received, h.sent]
  | csDone =>
    obtain ⟨q, hq, rfl⟩ := Option.map_eq_some_iff.mp hs
    cases TunnelRun.goes_of_step hq with
    | loopDone hloop _ =>
      have hrun := h.running (.inr (.inl (by rw [hloop]; nofun)))
      refine Running.leave ?_ ?_ ?_
      exacts [{ hrun with }, h.received, h.sent]
  | csRecv =>
    obtain ⟨q, hq, rfl⟩ := Option.map_eq_some_iff.mp hs
    exact h.csRecv (TunnelRun.goes_of_step hq)
  | csHandle err =>
    cases err with
    | none =>
      obtain ⟨q, hq, rfl⟩ := Option.map_eq_some_iff.mp hs
      cases TunnelRun.goes_of_step hq with
      | handled hloop => exact h.setQueue rfl rfl (by rw [hloop]; exact ⟨nofun, nofun⟩) id rfl
    | some e =>
      obtain ⟨q, hq, rfl⟩ := Option.map_eq_some_iff.mp hs
      cases TunnelRun.goes_of_step hq with
      | failed hloop =>
        have hrun := h.running (.inr (.inl (by rw [hloop]; nofun)))
        refine Running.leave ?_ ?_ ?_
        exacts [{ hrun with }, h.received, h.sent]
  | scSelect => exact h.scStep (a := .scSelect) hs
  | scHandle r => exact h.scStep (a := .scHandle r) hs
  | scPack r => exact h.scStep (a := .scPack r) hs
  | scPush err now => exact h.scStep (a := .scPush err now) hs
  | stopStep =>
    obtain ⟨hwait, hs⟩ := Option.ite_none_left_eq_some.mp hs
    have hwaited : s.queue.stop = .notCalled → s.waited = true := by
      intro hstop
      simpa [hstop] using hwait
    split at hs
    · next htriggered =>
      obtain ⟨-, hs⟩ := Option.ite_none_left_eq_some.mp hs
      cases hs
      exact { h with refused := fun _ => waited_iff.mp (hwaited (h.triggered htriggered)) }
    · next hfirst =>
      obtain ⟨q, hq, rfl⟩ := Option.map_eq_some_iff.mp hs
      exact h.stopStep hwaited (Bool.eq_false_iff.mpr hfirst) (TunnelRun.goes_of_step hq)

/-! ## The end of a tunnel -/

/-- What the calls of `scLoop` and `csLoop` return when the tunnel ends. -/
structure Answers (M : Type) where
  csHandle : Option Err
  scHandle : Except Err M
  tunnelMsgToPack : Except Err Pack
  push : Option Err
  now : Nat

/-- The steps of a tunnel that ends: nothing is forwarded and nothing is received. -/
def Answers.ending (r : Answers M) : List (TunnelFlowAct M) :=
  [.watchDone, .watchTriggered, .csDone, .csHandle r.csHandle, .scSelect, .scHandle r.scHandle,
    .scPack r.tunnelMsgToPack, .scPush r.push r.now, .stopStep]

/-- `run` has returned: `stop` has run through, or was refused because of a `Stop`. -/
def Ended (s : TunnelFlow M) : Prop :=
  if s.triggered then s.refused = true else s.queue.stop = .done

def loopRank : TunnelLoopPc M → Nat
  | .handling _ => 2
  | .select => 1
  | .exited => 0

def scRank : ScPc M → Nat
  | .handle => 4
  | .pack _ => 3
  | .push _ _ => 2
  | .select => 1
  | .exited => 0

def stopRank : TunnelStopPc → Nat
  | .notCalled => 3
  | .closeChan => 2
  | .onStop => 1
  | .done => 0

/-- How many steps the end of `run` takes once its goroutines have returned. -/
def endRank (s : TunnelFlow M) : Nat :=
  if s.triggered then (!s.refused).toNat else stopRank s.queue.stop

/-- How many steps an ending tunnel can still make. -/
def rank (s : TunnelFlow M) : Nat :=
  s.watching.toNat + loopRank s.queue.loop + scRank s.sc + s.endRank

theorem rank_le (s : TunnelFlow M) : s.rank ≤ 10 := by
  have hloop : loopRank s.queue.loop ≤ 2 := by cases s.queue.loop <;> simp [loopRank]
  have hsc : scRank s.sc ≤ 4 := by cases s.sc <;> simp [scRank]
  have hstop : stopRank s.queue.stop ≤ 3 := by cases s.queue.stop <;> simp [stopRank]
  have hrefused := Bool.toNat_le (!s.refused)
  have hwatching := Bool.toNat_le s.watching
  unfold rank endRank
  split <;> omega

/-- One of the steps can be taken and comes nearer to the end; the context has ended after it. -/
def Advances (s : TunnelFlow M) (r : Answers M) : Prop :=
  ∃ a ∈ r.ending, ∃ s', s.step a = some s' ∧ s'.rank < s.rank ∧ s'.triggered = s.triggered ∧
    s'.queue.ctxDone = true

/-- A step of one of the goroutines. -/
theorem advances_of_step {s s' : TunnelFlow M} {r : Answers M} {a : TunnelFlowAct M}
    (ha : a ∈ r.ending) (hs : s.step a = some s') (htriggered : s'.triggered = s.triggered)
    (hrefused : s'.refused = s.refused) (hstop : s'.queue.stop = s.queue.stop)
    (hctx : s'.queue.ctxDone = true)
    (hlt : s'.watching.toNat + loopRank s'.queue.loop + scRank s'.sc <
      s.watching.toNat + loopRank s.queue.loop + scRank s.sc) : s.Advances r := by
  refine ⟨a, ha, s', hs, ?_, htriggered, hctx⟩
  have hend : s'.endRank = s.endRank := by
    rw [endRank, endRank, htriggered, hrefused, hstop]
  rw [rank, rank, hend]
  exact Nat.add_lt_add_right hlt _

theorem advances_of_watching {s : TunnelFlow M} (r : Answers M) (hw : s.watching = true)
    (hgo : s.triggered = true ∨ s.queue.ctxDone = true) : s.Advances r := by
  have hlt : (false).toNat + loopRank s.queue.loop + scRank s.sc <
      s.watching.toNat + loopRank s.queue.loop + scRank s.sc := by
    rw [hw]
    simp only [Bool.toNat_false, Bool.toNat_true]
    omega
  rcases hgo with ht | hctx
  · exact advances_of_step (a := .watchTriggered) (by simp [Answers.ending]) (if_pos ⟨hw, ht⟩)
      rfl rfl rfl rfl hlt
  · exact advances_of_step (a := .watchDone) (by simp [Answers.ending]) (if_pos ⟨hw, hctx⟩)
      rfl rfl rfl rfl hlt

theorem advances_of_cs {s : TunnelFlow M} (r : Answers M) (hctx : s.queue.ctxDone = true)
    (hloop : s.queue.loop ≠ .exited) : s.Advances r := by
  cases hl : s.queue.loop with
  | exited => exact absurd hl hloop
  | select =>
    refine advances_of_step (a := .csDone) (by simp [Answers.ending])
      (by simp [step, TunnelRun.step, hl, hctx]; rfl) (by rfl) (by rfl) (by rfl) (by rfl) ?_
    simp only [leave, hl, loopRank]
    omega
  | handling p =>
    have hmem : .csHandle r.csHandle ∈ r.ending := by simp [Answers.ending]
    cases hr : r.csHandle with
    | none =>
      rw [hr] at hmem
      refine advances_of_step hmem (by simp [step, TunnelRun.step, hl]; rfl) (by rfl) (by rfl)
        (by rfl) (by exact hctx) ?_
      simp only [hl, loopRank]
      omega
    | some e =>
      rw [hr] at hmem
      refine advances_of_step hmem (by simp [step, TunnelRun.step, hl]; rfl) (by rfl) (by rfl)
        (by rfl) (by rfl) ?_
      simp only [leave, hl, loopRank]
      omega

theorem advances_of_sc {s : TunnelFlow M} (r : Answers M) (hctx : s.queue.ctxDone = true)
    (hsc : s.sc ≠ .exited) : s.Advances r := by
  cases hp : s.sc with
  | exited => exact absurd hp hsc
  | select =>
    refine advances_of_step (a := .scSelect) (by simp [Answers.ending])
      (by simp [step, scStep, hp, hctx]; rfl) (by rfl) (by rfl) (by rfl) (by rfl) ?_
    simp only [leave, hp, scRank]
    omega
  | handle =>
    have hmem : .scHandle r.scHandle ∈ r.ending := by simp [Answers.ending]
    cases hr : r.scHandle with
    | ok msg =>
      rw [hr] at hmem
      refine advances_of_step hmem (by simp [step, scStep, hp]; rfl) (by rfl) (by rfl) (by rfl)
        (by exact hctx) ?_
      simp only [hp, scRank]
      omega
    | error e =>
      rw [hr] at hmem
      refine advances_of_step hmem (by simp [step, scStep, hp]; rfl) (by rfl) (by rfl) (by rfl)
        (by rfl) ?_
      simp only [leave, hp, scRank]
      omega
  | pack msg =>
    have hmem : .scPack r.tunnelMsgToPack ∈ r.ending := by simp [Answers.ending]
    cases hr : r.tunnelMsgToPack with
    | ok pack =>
      rw [hr] at hmem
      refine advances_of_step hmem (by simp [step, scStep, hp]; rfl) (by rfl) (by rfl) (by rfl)
        (by exact hctx) ?_
      simp only [hp, scRank]
      omega
    | error e =>
      rw [hr] at hmem
      refine advances_of_step hmem (by simp [step, scStep, hp]; rfl) (by rfl) (by rfl) (by rfl)
        (by rfl) ?_
      simp only [leave, hp, scRank]
      omega
  | push msg pack =>
    have hmem : .scPush r.push r.now ∈ r.ending := by simp [Answers.ending]
    have hstep : s.step (.scPush r.push r.now) = some (s.pushed msg pack r.push r.now) := by
      simp [step, scStep, hp]
    unfold pushed at hstep
    cases hr : r.push with
    | none =>
      rw [hr] at hstep hmem
      refine advances_of_step hmem hstep rfl rfl rfl hctx ?_
      simp only [hp, scRank]
      omega
    | some e =>
      rw [hr] at hstep hmem
      dsimp only at hstep
      split at hstep
      · refine advances_of_step hmem hstep rfl rfl rfl rfl ?_
        simp only [leave, hp, scRank]
        omega
      · refine advances_of_step hmem hstep rfl rfl rfl hctx ?_
        simp only [hp, scRank]
        omega

/-- All goroutines have returned, and `run` is at its deferred function. -/
theorem advances_of_waited {s : TunnelFlow M} (r : Answers M) (hctx : s.queue.ctxDone = true)
    (hwait : s.waited = true) (hended : ¬s.Ended) : s.Advances r := by
  have hloop := (waited_iff.mp hwait).2.1
  refine ⟨.stopStep, by simp [Answers.ending], ?_⟩
  unfold Ended at hended
  split at hended
  · next ht =>
    have hrefused : s.refused = false := Bool.eq_false_iff.mpr hended
    refine ⟨{ s with refused := true }, by simp [step, hwait, ht, hrefused], ?_, rfl, hctx⟩
    simp [rank, endRank, ht, hrefused]
  · next ht =>
    have hfirst : s.triggered = false := Bool.eq_false_iff.mpr ht
    cases hq : s.queue.stop with
    | done => exact absurd hq hended
    | notCalled =>
      refine ⟨_, by simp [step, TunnelRun.step, TunnelRun.stopStep, hq, hwait, hloop, hfirst]; rfl,
        ?_, by exact hfirst.symm, by exact hctx⟩
      simp only [rank, endRank, hq, hloop, hfirst, stopRank, Bool.false_eq_true, if_false]
      omega
    | closeChan =>
      refine ⟨_, by simp [step, TunnelRun.step, TunnelRun.stopStep, hq, hfirst]; rfl, ?_,
        by exact hfirst.symm, by exact hctx⟩
      simp only [rank, endRank, hq, hfirst, stopRank, Bool.false_eq_true, if_false]
      omega
    | onStop =>
      refine ⟨_, by simp [step, TunnelRun.step, TunnelRun.stopStep, hq, hfirst]; rfl, ?_,
        by exact hfirst.symm, by exact hctx⟩
      simp only [rank, endRank, hq, hfirst, stopRank, Bool.false_eq_true, if_false]
      omega

/-- **A tunnel that has to end can come nearer to its end**, whatever its calls return. -/
theorem Inv.advances {s : TunnelFlow M} (h : s.Inv)
    (hgo : s.triggered = true ∨ s.queue.ctxDone = true) (hended : ¬s.Ended) (r : Answers M) :
    s.Advances r := by
  by_cases hw : s.watching = true
  · exact advances_of_watching r hw hgo
  · have hw := Bool.eq_false_iff.mpr hw
    -- the first goroutine has returned, so the context of the others has ended
    obtain ⟨hctx, _⟩ := h.left (.inl hw)
    by_cases hloop : s.queue.loop = .exited
    · by_cases hsc : s.sc = .exited
      · exact advances_of_waited r hctx (waited_iff.mpr ⟨hw, hloop, hsc⟩) hended
      · exact advances_of_sc r hctx hsc
    · exact advances_of_cs r hctx hloop

/-- At most `n` of the steps bring the tunnel to its end. -/
def CanEnd (s : TunnelFlow M) (r : Answers M) (n : Nat) : Prop :=
  ∃ acts s', acts.length ≤ n ∧ (∀ a ∈ acts, a ∈ r.ending) ∧ run step s acts = some s' ∧
    s'.triggered = s.triggered ∧ s'.Ended

theorem Inv.canEnd {s : TunnelFlow M} (h : s.Inv)
    (hgo : s.triggered = true ∨ s.queue.ctxDone = true) (r : Answers M) {n : Nat}
    (hle : s.rank ≤ n) : s.CanEnd r n := by
  induction n generalizing s with
  | zero =>
    refine ⟨[], s, Nat.le_refl 0, nofun, rfl, rfl, ?_⟩
    by_contra hended
    obtain ⟨_, _, _, _, hlt, _⟩ := h.advances hgo hended r
    omega
  | succ n ih =>
    by_cases hended : s.Ended
    · exact ⟨[], s, Nat.zero_le _, nofun, rfl, rfl, hended⟩
    · obtain ⟨a, ha, s₁, hs₁, hlt, hsame, hctx⟩ := h.advances hgo hended r
      obtain ⟨acts, s', hlen, hacts, hrun, hsame', hended'⟩ :=
        ih (h.step hs₁) (.inr hctx) (by omega)
      refine ⟨a :: acts, s', Nat.succ_le_succ hlen, ?_, ?_, hsame'.trans hsame, hended'⟩
      · exact List.forall_mem_cons.mpr ⟨ha, hacts⟩
      · exact run_cons_eq_some.mpr ⟨s₁, hs₁, hrun⟩

/-! ## Main result -/

/-- What holds of a tunnel at any time. -/
structure Orderly (s : TunnelFlow M) : Prop where
  /-- what `Forward` has accepted is handled in that order; what is not yet handled is queued -/
  received : s.accepted = s.handled ++ s.queue.csChan.buf
  /-- `Push` is called for what `SCHandle` returns in that order; only the last may be missing -/
  sent : ∃ last, s.emitted = s.offered.map Prod.fst ++ last ∧ last.length ≤ 1
  /-- `csChan` is closed when no goroutine of the tunnel is left that could receive from it -/
  closed : s.queue.csChan.closed = true →
    s.watching = false ∧ s.queue.loop = .exited ∧ s.sc = .exited
  /-- `OnStop` is called once, at the end, with the error of the first goroutine that returned -/
  onStop : s.onStop = if s.queue.stop = .done then [s.err] else []
  reason : s.queue.stop = .done → s.err ≠ none
  /-- after a `Stop`, `csChan` is not closed and `OnStop` is not called, also when `run` returns -/
  stopped : s.triggered = true → s.queue.csChan.closed = false ∧ s.onStop = []
  /-- after a `Stop`, or when its context ends, the tunnel can end, whatever its calls return -/
  canEnd : s.triggered = true ∨ s.queue.ctxDone = true → ∀ r : Answers M, s.CanEnd r 10

theorem Inv.stopped {s : TunnelFlow M} (h : s.Inv) (ht : s.triggered = true) :
    s.queue.csChan.closed = false ∧ s.onStop = [] := by
  have hstop := h.triggered ht
  refine ⟨Bool.eq_false_iff.mpr fun hc => ?_, ?_⟩
  · rcases h.closed hc with h' | h' <;> rw [hstop] at h' <;> cases h'
  · rw [h.onStop, hstop]; rfl

theorem Inv.orderly {s : TunnelFlow M} (h : s.Inv) : s.Orderly where
  received := h.received
  sent := by
    obtain ⟨last, hemitted, hlen, _⟩ := h.sent
    exact ⟨last, hemitted, hlen⟩
  closed := fun hc => h.waited (by rcases h.closed hc with hs | hs <;> rw [hs] <;> nofun)
  onStop := h.onStop
  reason := fun hs => (h.left (.inl (h.waited (by rw [hs]; nofun)).1)).2
  stopped := h.stopped
  canEnd := fun hgo r => h.canEnd hgo r s.rank_le

/--
**The life of a tunnel.** In every interleaving of `Forward` calls, the three goroutines and both
ways to end: both directions keep the order and lose nothing but what is still queued, or in hand,
when a loop returns; the channel is closed behind all of them; `OnStop` is called once, with the
first error, unless `Stop` was called before: then neither happens. Once `Stop` is called or the
context has ended, the tunnel can come to its end within ten steps of its own, whatever the
application and the pusher return.
-/
theorem lifecycle (acts : List (TunnelFlowAct M)) :
    EachState step Orderly (init : TunnelFlow M) acts :=
  eachState_of_remaining (I := fun s _ => s.Inv) (fun _ _ _ _ h hs => h.step hs)
    (fun _ _ h => h.orderly) inv_init

/-- A tunnel that is stopped with a message in its channel. -/
example :
    (run step (init : TunnelFlow Nat)
        [.forward 0 7, .forwardStep 0, .forwardStep 0, .trigger, .watchTriggered, .csDone,
          .scSelect, .stopStep]).map
        (fun s => (s.refused, s.queue.csChan.closed, s.queue.csChan.buf, s.onStop)) =
      some (true, false, [7], []) := by
  decide +kernel

end TunnelFlow

end FabricaNet.Internal
