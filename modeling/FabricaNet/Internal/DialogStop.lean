import FabricaNet.Go.Chan
import FabricaNet.Lib.Run
import FabricaNet.Xnet

/-!
# The end of a dialog

`Dialog.start`, `Dialog.receiveLoop` and `Dialog.stop` of `internal/dialog.go`, as steps of the
goroutines that run them, from the handshake to the end. `BaseClient.Stop` calls `stop` at any time;
the dialog's own callback calls it when `start` has returned. Of `xsync.Stoppable` it is assumed
that `TurnOff` triggers the stop before it runs its function, and runs the function once.

`receiveLoop` looks at the trigger at the top of a round. The send on `receivedPackChan` comes after
`Decode` and `Decrypt`, and may block. `stop` closes the channel without waiting for the round to
end, so a pack may be sent on a closed channel (`eachState_noSendOnClosed_iff`).

## What is left open

`Decode` on a connection that is closed may still return a pack: the reader has buffered bytes. The
context of `start` ends when its watcher has seen the trigger, when `receiveLoop` has returned an
error, and for any reason of the caller's.
-/

namespace FabricaNet.Internal

open Go Lib Xnet

/-- Where `Dialog.start` is. -/
inductive StartPc where
  /-- before the goroutines are started -/
  | handshake
  /-- in `eg.Wait` -/
  | running
  | returned
deriving DecidableEq, Repr

/-- Where `receiveLoop` is. -/
inductive ReceiveLoopPc where
  | notStarted
  | select
  | decode
  | decrypt (pack : Pack)
  /-- the send on `receivedPackChan` is next, and may block -/
  | send (pack : Pack)
  | exited
  /-- the send was on a closed channel -/
  | panicked
deriving DecidableEq, Repr

/-- The goroutine of `receiveLoop` is not there. -/
def ReceiveLoopPc.gone : ReceiveLoopPc → Bool
  | .notStarted | .exited | .panicked => true
  | _ => false

/-- Where `stop` is: the part of the function passed to `TurnOff` that comes next. -/
inductive DialogStopPc where
  | notCalled
  /-- `close(d.receivedPackChan)` -/
  | closeChan
  /-- `d.conn.Close()` -/
  | closeConn
  | done
deriving DecidableEq, Repr

/-- Who calls `stop`. -/
inductive StopCaller where
  /-- `BaseClient.Stop` -/
  | client
  /-- the second function of `GoAndStop` -/
  | callback
deriving DecidableEq, Repr

/-- A dialog. -/
structure DialogRun where
  start : StartPc
  loop : ReceiveLoopPc
  /-- the other goroutine of `start` has returned -/
  watched : Bool
  ctxDone : Bool
  /-- `StopTriggered` is ready -/
  stopping : Bool
  stop : DialogStopPc
  receivedPackChan : Chan Pack
  connClosed : Bool

inductive DialogAct where
  /-- the handshake is over; when it has succeeded the goroutines start -/
  | handshake (ok : Bool)
  /-- the `select` of `receiveLoop` -/
  | select
  /-- `Decode` returns a pack or an error -/
  | decode (r : Option Pack)
  /-- `Decrypt` returns a pack or an error -/
  | decrypt (r : Option Pack)
  /-- the send of `receiveLoop` -/
  | send
  /-- the application receives from `Receive()` -/
  | receive
  /-- the watcher sees the trigger or the end of the context -/
  | watch
  /-- the context ends for a reason of the caller's -/
  | cancel
  /-- `eg.Wait` returns, and `start` with it -/
  | wait
  /-- a call of `stop` -/
  | stop (caller : StopCaller)
  /-- the next part of the function passed to `TurnOff` -/
  | stopStep
deriving DecidableEq, Repr

namespace DialogRun

/-- What `newDialog` returns. -/
def init : DialogRun where
  start := .handshake
  loop := .notStarted
  watched := false
  ctxDone := false
  stopping := false
  stop := .notCalled
  receivedPackChan := Chan.make 1024
  connClosed := false

/-- `receiveLoop` returns an error, which ends the context of the group. -/
def exitLoop (s : DialogRun) : DialogRun := { s with loop := .exited, ctxDone := true }

/-- The next part of `receiveLoop`. -/
def loopStep (s : DialogRun) : ReceiveLoopPc → DialogAct → Option DialogRun
  | .select, .select =>
    if s.stopping || s.ctxDone then some s.exitLoop else some { s with loop := .decode }
  | .decode, .decode none => some s.exitLoop
  | .decode, .decode (some pack) => some { s with loop := .decrypt pack }
  | .decrypt _, .decrypt none => some s.exitLoop
  | .decrypt _, .decrypt (some pack) => some { s with loop := .send pack }
  | .send pack, .send =>
    match s.receivedPackChan.send pack with
    | .blocked => none
    | .panic => some { s with loop := .panicked }
    | .done c => some { s with receivedPackChan := c, loop := .select }
  | _, _ => none

/-- A call of `stop`: `TurnOff` runs its function for the first caller only. -/
def callStop (s : DialogRun) : DialogRun :=
  if s.stop = .notCalled then { s with stopping := true, stop := .closeChan } else s

/-- The next part of the function passed to `TurnOff`. -/
def stopStep (s : DialogRun) : Option DialogRun :=
  match s.stop with
  | .closeChan => some { s with receivedPackChan := s.receivedPackChan.close, stop := .closeConn }
  | .closeConn => some { s with connClosed := true, stop := .done }
  | _ => none

def step (s : DialogRun) : DialogAct → Option DialogRun
  | .handshake ok =>
    if s.start = .handshake then
      some (if ok then { s with start := .running, loop := .select }
        else { s with start := .returned })
    else none
  | .receive =>
    match s.receivedPackChan.recv with
    | .blocked => none
    | .ended => some s
    | .got _ c => some { s with receivedPackChan := c }
  | .watch =>
    if s.start = .running ∧ (s.stopping = true ∨ s.ctxDone = true) then
      some { s with watched := true, ctxDone := true }
    else none
  | .cancel => some { s with ctxDone := true }
  | .wait =>
    if s.start = .running ∧ s.watched = true ∧ s.loop.gone = true then
      some { s with start := .returned }
    else none
  | .stop .client => some s.callStop
  | .stop .callback => if s.start = .returned then some s.callStop else none
  | .stopStep => s.stopStep
  | a => s.loopStep s.loop a

/-! ## What a step does -/

/-- A step leaves `start`, `receiveLoop`, `stop` and the closing of the channel alone. -/
structure Aside (s s' : DialogRun) : Prop where
  start_eq : s'.start = s.start
  loop_eq : s'.loop = s.loop
  stop_eq : s'.stop = s.stop
  closed_eq : s'.receivedPackChan.closed = s.receivedPackChan.closed

/-- Every way in which an action changes the dialog. -/
inductive Effect (s : DialogRun) : DialogAct → DialogRun → Prop
  | begin (pc : s.start = .handshake) :
      Effect s (.handshake true) { s with start := .running, loop := .select }
  | refuse (pc : s.start = .handshake) : Effect s (.handshake false) { s with start := .returned }
  | exit {a : DialogAct} (pc : s.loop.gone = false)
      (act : a = .select ∨ a = .decode none ∨ a = .decrypt none) : Effect s a s.exitLoop
  | look (pc : s.loop = .select) : Effect s .select { s with loop := .decode }
  | decoded (pack : Pack) (pc : s.loop = .decode) :
      Effect s (.decode (some pack)) { s with loop := .decrypt pack }
  | decrypted {pack : Pack} (pack' : Pack) (pc : s.loop = .decrypt pack) :
      Effect s (.decrypt (some pack')) { s with loop := .send pack' }
  | sent {pack : Pack} (pc : s.loop = .send pack) :
      Effect s .send { s with
        receivedPackChan := { s.receivedPackChan with buf := s.receivedPackChan.buf ++ [pack] }
        loop := .select }
  | panic {pack : Pack} (pc : s.loop = .send pack) (closed : s.receivedPackChan.closed = true) :
      Effect s .send { s with loop := .panicked }
  | wait (pc : s.start = .running) (gone : s.loop.gone = true) :
      Effect s .wait { s with start := .returned }
  | turnOff {caller : StopCaller} (pc : s.stop = .notCalled) :
      Effect s (.stop caller) { s with stopping := true, stop := .closeChan }
  | closeChan (pc : s.stop = .closeChan) :
      Effect s .stopStep { s with
        receivedPackChan := s.receivedPackChan.close, stop := .closeConn }
  | closeConn (pc : s.stop = .closeConn) :
      Effect s .stopStep { s with connClosed := true, stop := .done }
  | aside {a : DialogAct} {s' : DialogRun} (same : Aside s s')
      (act : a = .receive ∨ a = .watch ∨ a = .cancel ∨ ∃ caller, a = .stop caller) : Effect s a s'

variable {s s' : DialogRun} {a : DialogAct}

theorem loopStep_effect (h : s.loopStep s.loop a = some s') : Effect s a s' := by
  unfold loopStep at h
  split at h
  · next hpc =>
    split at h
    · cases h
      exact .exit (by rw [hpc]; rfl) (Or.inl rfl)
    · cases h
      exact .look hpc
  · next hpc =>
    cases h
    exact .exit (by rw [hpc]; rfl) (Or.inr (Or.inl rfl))
  · next pack hpc =>
    cases h
    exact .decoded pack hpc
  · next hpc =>
    cases h
    exact .exit (by rw [hpc]; rfl) (Or.inr (Or.inr rfl))
  · next pack' hpc =>
    cases h
    exact .decrypted pack' hpc
  · next pack hpc =>
    split at h
    · cases h
    · next hsend =>
      cases h
      exact .panic hpc (Chan.send_eq_panic hsend)
    · next c hsend =>
      cases h
      obtain ⟨-, rfl⟩ := Chan.send_eq_done hsend
      exact .sent hpc
  · cases h

theorem callStop_effect (caller : StopCaller) : Effect s (.stop caller) s.callStop := by
  unfold callStop
  split
  · next hpc => exact .turnOff hpc
  · exact .aside ⟨rfl, rfl, rfl, rfl⟩ (Or.inr (Or.inr (Or.inr ⟨caller, rfl⟩)))

theorem step_effect (h : s.step a = some s') : Effect s a s' := by
  cases a with
  | handshake ok =>
    obtain ⟨hpc, ⟨⟩⟩ := Option.ite_none_right_eq_some.mp h
    cases ok with
    | true => exact .begin hpc
    | false => exact .refuse hpc
  | receive =>
    simp only [step] at h
    split at h
    · cases h
    · cases h
      exact .aside ⟨rfl, rfl, rfl, rfl⟩ (Or.inl rfl)
    · next hrecv =>
      cases h
      exact .aside ⟨rfl, rfl, rfl, (Chan.recv_eq_got hrecv).2.2⟩ (Or.inl rfl)
  | watch =>
    obtain ⟨-, ⟨⟩⟩ := Option.ite_none_right_eq_some.mp h
    exact .aside ⟨rfl, rfl, rfl, rfl⟩ (Or.inr (Or.inl rfl))
  | cancel =>
    cases h
    exact .aside ⟨rfl, rfl, rfl, rfl⟩ (Or.inr (Or.inr (Or.inl rfl)))
  | wait =>
    obtain ⟨⟨hpc, -, hgone⟩, ⟨⟩⟩ := Option.ite_none_right_eq_some.mp h
    exact .wait hpc hgone
  | stop caller =>
    cases caller with
    | client =>
      cases h
      exact callStop_effect .client
    | callback =>
      obtain ⟨-, ⟨⟩⟩ := Option.ite_none_right_eq_some.mp h
      exact callStop_effect .callback
  | stopStep =>
    simp only [step, stopStep] at h
    split at h
    · next hpc =>
      cases h
      exact .closeChan hpc
    · next hpc =>
      cases h
      exact .closeConn hpc
    · cases h
  | select | decode | decrypt | send => exact loopStep_effect h

/-! ## Order -/

/-- The parts of `stop` after the close. -/
def afterClose : DialogStopPc → Bool
  | .closeConn | .done => true
  | _ => false

/-- The channel is closed by `stop` only, and `receiveLoop` runs only while `start` waits for it. -/
structure Ordered (s : DialogRun) : Prop where
  closed_iff : s.receivedPackChan.closed = afterClose s.stop
  gone : s.start ≠ .running → s.loop.gone = true

theorem ordered_init : Ordered init := ⟨rfl, fun _ => rfl⟩

theorem Ordered.running (h : Ordered s) (hgone : s.loop.gone = false) : s.start = .running := by
  by_contra hne
  rw [h.gone hne] at hgone
  cases hgone

theorem Ordered.step (h : Ordered s) (hs : s.step a = some s') : Ordered s' := by
  have hclosed := h.closed_iff
  cases step_effect hs with
  | begin pc => exact ⟨hclosed, fun hne => absurd rfl hne⟩
  | refuse pc => exact ⟨hclosed, fun _ => h.gone (by rw [pc]; decide)⟩
  | exit pc act => exact ⟨hclosed, fun _ => rfl⟩
  | look pc | decoded _ pc | decrypted _ pc =>
    exact ⟨hclosed, fun hne => absurd (h.running (by rw [pc]; rfl)) hne⟩
  | sent pc => exact ⟨hclosed, fun hne => absurd (h.running (by rw [pc]; rfl)) hne⟩
  | panic pc closed => exact ⟨hclosed, fun _ => rfl⟩
  | wait pc gone => exact ⟨hclosed, fun _ => gone⟩
  | turnOff pc =>
    rw [pc] at hclosed
    exact ⟨hclosed, h.gone⟩
  | closeChan pc => exact ⟨rfl, h.gone⟩
  | closeConn pc =>
    rw [pc] at hclosed
    exact ⟨hclosed, h.gone⟩
  | aside same act =>
    refine ⟨?_, fun hne => ?_⟩
    · rw [same.closed_eq, same.stop_eq, hclosed]
    · rw [same.loop_eq]
      exact h.gone (same.start_eq ▸ hne)

/-! ## Sends on the closed channel -/

/-- `receiveLoop` has not sent on the closed channel, and does not have such a send before it. -/
def NoSendOnClosed (s : DialogRun) : Prop :=
  s.loop ≠ .panicked ∧ (s.receivedPackChan.closed = true → ∀ pack, s.loop ≠ .send pack)

/--
When the channel is closed while `start` is waiting for `receiveLoop`, this is not at its send; and
`Decrypt` does not return a pack on a dialog whose channel is closed.
-/
def ClosesQuietly (s : DialogRun) (a : DialogAct) : Prop :=
  (a = .stopStep → s.stop = .closeChan → s.start = .running → ∀ pack, s.loop ≠ .send pack) ∧
    ∀ pack, a = .decrypt (some pack) → s.receivedPackChan.closed = false

theorem NoSendOnClosed.step (h : NoSendOnClosed s) (ho : Ordered s) (hs : s.step a = some s')
    (hq : ClosesQuietly s a) : NoSendOnClosed s' := by
  cases step_effect hs with
  | begin pc | exit pc act | look pc | decoded _ pc | sent pc => exact ⟨nofun, fun _ => nofun⟩
  | decrypted pack' pc =>
    refine ⟨nofun, fun hclosed => ?_⟩
    have hopen : s.receivedPackChan.closed = false := hq.2 pack' rfl
    rw [hopen] at hclosed
    cases hclosed
  | panic pc closed => exact absurd pc (h.2 closed _)
  | refuse pc | wait pc gone | turnOff pc | closeConn pc => exact h
  | closeChan pc =>
    refine ⟨h.1, fun _ pack hsend => ?_⟩
    have hloop : s.loop = .send pack := hsend
    exact hq.1 rfl pc (ho.running (by rw [hloop]; rfl)) pack hloop
  | aside same act =>
    refine ⟨?_, fun hclosed => ?_⟩
    · rw [same.loop_eq]
      exact h.1
    · rw [same.loop_eq]
      exact h.2 (same.closed_eq ▸ hclosed)

theorem closesQuietly_of_step (hs : s.step a = some s') (h' : NoSendOnClosed s') :
    ClosesQuietly s a := by
  cases step_effect hs with
  | decrypted pack' pc =>
    refine ⟨nofun, fun pack _ => ?_⟩
    by_contra hclosed
    exact h'.2 (Bool.not_eq_false _ ▸ hclosed) pack' rfl
  | closeChan pc => exact ⟨fun _ _ _ => h'.2 rfl, nofun⟩
  | closeConn pc =>
    refine ⟨fun _ hpc => ?_, nofun⟩
    rw [pc] at hpc
    cases hpc
  | exit pc act =>
    rcases act with rfl | rfl | rfl
    all_goals exact ⟨nofun, nofun⟩
  | aside same act =>
    rcases act with rfl | rfl | rfl | ⟨caller, rfl⟩
    all_goals exact ⟨nofun, nofun⟩
  | _ => exact ⟨nofun, nofun⟩

/--
**`receiveLoop` never sends on the closed channel, and never waits to, exactly in the runs in which
the channel is closed while the loop is not at its send and in which `Decrypt` returns no pack after
the close.** A close by the dialog's own callback comes when the loop is gone.
-/
theorem eachState_noSendOnClosed_iff (acts : List DialogAct) :
    EachState step NoSendOnClosed init acts ↔
      EachStep step (fun s a _ => s.ClosesQuietly a) init acts := by
  have hinit : NoSendOnClosed init := ⟨nofun, fun _ => nofun⟩
  refine eachState_iff_of_step (I := fun s _ => Ordered s) ?_ ?_ ordered_init hinit
  · exact fun s a s' _ ho hs => ho.step hs
  · exact fun s a s' _ ho h hs => ⟨closesQuietly_of_step hs, h.step ho hs⟩

/-- `BaseClient.Stop` closes the channel while `receiveLoop` is decoding; the next send panics. -/
theorem send_after_close :
    (Lib.run step init [.handshake true, .select, .decode (some [7]), .stop .client, .stopStep,
        .decrypt (some [7]), .send]).map DialogRun.loop = some .panicked ∧
      ¬EachState step NoSendOnClosed init [.handshake true, .select, .decode (some [7]),
        .stop .client, .stopStep, .decrypt (some [7]), .send] := by
  exact ⟨rfl, fun h => (h.of_run rfl).1 rfl⟩

end DialogRun

end FabricaNet.Internal
