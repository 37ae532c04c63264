import FabricaNet.Internal.WorkerLife

/-!
# Workers that end, and workers that are wedged

What `FabricaNet/Internal/WorkerLife.lean` comes to, over every run of a worker:

* A worker that can take no step of its own has ended or is wedged, and once `Stop` has been called
  it can always end within twelve steps of its own (`ends_or_wedges`)
* For every size of the queue there is a run that wedges the worker, and it stays so until somebody
  else calls `Stop` (`wedges_for_good`)

The first goes through the goroutines one by one: each can go on, has returned, or is at a send
that blocks. The number of steps comes from a rank that the next step of `Stop`, the watcher or one
of the loops lowers. For the second, `Handle` fills the queue after a failed `Tick` has ended the
other loops, by induction on the packs in the queue.
-/

namespace FabricaNet.Internal

open Go Lib Xnet

namespace WorkerLife

variable {s s' : WorkerLife} {a : WorkerLifeAct} {l : ServiceLoop} {i : Nat}

/-! ## A worker that cannot go on -/

theorem own_pushStep (h : s.loop l = .pushing i) : s.own (.queue (.pushStep i)) = true := by
  cases l <;> simp [own, h]

theorem step_queue {b : WorkerAct} (hb : b.ofQueue = true) :
    s.step (.queue b) = (s.queue.step b).map fun q => { s with queue := q } :=
  if_pos hb

theorem Stuck.queue_eq_none {b : WorkerAct} (h : s.Stuck) (hown : s.own (.queue b) = true)
    (hb : b.ofQueue = true) : s.queue.step b = none := by
  have hnone := h _ hown
  rwa [step_queue hb, Option.map_eq_none_iff] at hnone

/-- A loop that cannot go on has returned, or the service in it is blocked in `Push`. -/
theorem Stuck.loop (h : s.Stuck) (hinv : Inv s) (hstarted : s.queue.loop ≠ .notStarted)
    (l : ServiceLoop) : s.loop l = .exited ∨ s.SendsIn l ∧ s.queue.sendChan.closed = false ∧
      s.queue.sendChan.cap ≤ s.queue.sendChan.buf.length := by
  have hserve : ∀ b, s.serviceStep l (s.loop l) b = none := fun b => h (.serve l b) rfl
  cases hpc : s.loop l with
  | notStarted => exact absurd hpc ((hinv.started hstarted).2 l)
  | exited => exact Or.inl rfl
  | select =>
    have hdone := hserve .ctxDone
    have hnext := hserve .next
    cases l with
    | tick => simp [serviceStep, hpc] at hnext
    | read =>
      cases hctx : s.queue.ctxDone with
      | true => simp [serviceStep, hpc, hctx] at hdone
      | false => simp [serviceStep, hpc, hctx] at hnext
  | checking =>
    have hcheck := hserve .check
    simp only [serviceStep, hpc] at hcheck
    split at hcheck <;> cases hcheck
  | reading =>
    have hdecoded := hserve (.decoded false)
    simp [serviceStep, hpc] at hdecoded
  | serving =>
    have hret := hserve (.ret false)
    simp [serviceStep, hpc] at hret
  | pushing i =>
    have hpush : s.queue.pushStep i = none := h.queue_eq_none (own_pushStep hpc) rfl
    have hpushed := hserve .pushed
    cases hcall : s.queue.pushes i with
    | idle => exact absurd hcall (hinv.calls l i hpc)
    | check out =>
      simp only [WorkerRun.pushStep, hcall] at hpush
      split at hpush
      · cases hpush
      · split at hpush <;> cases hpush
    | send out =>
      simp only [WorkerRun.pushStep, hcall] at hpush
      split at hpush
      · next hsend => exact Or.inr ⟨⟨i, out, hpc, hcall⟩, Chan.send_eq_blocked hsend⟩
      · cases hpush
      · cases hpush
    | sent out => simp [WorkerRun.pushStep, hcall] at hpush
    | accepted out => simp [serviceStep, hpc, hcall] at hpushed
    | refused err => simp [serviceStep, hpc, hcall] at hpushed
    | panicked => simp [serviceStep, hpc, hcall] at hpushed

/-- `sendLoop` can take a pack from the full queue, or from a sender. -/
theorem not_stuck_of_select (hpc : s.queue.loop = .select) (hsend : s.SendsIn l)
    (hopen : s.queue.sendChan.closed = false)
    (hfull : s.queue.sendChan.cap ≤ s.queue.sendChan.buf.length) : ¬s.Stuck := by
  intro h
  obtain ⟨i, out, -, hcall⟩ := hsend
  cases hbuf : s.queue.sendChan.buf with
  | cons item rest =>
    have hrecv := h.queue_eq_none (b := .loopRecv) rfl rfl
    simp [WorkerRun.step, WorkerRun.loopRecv, Chan.recv, hpc, hbuf] at hrecv
  | nil =>
    have hcap : s.queue.sendChan.cap = 0 := by simpa [hbuf] using hfull
    have hoff := h.queue_eq_none (b := .handOff i) rfl rfl
    simp [WorkerRun.step, WorkerRun.handOff, Chan.handsOff, hpc, hcall, hcap, hopen] at hoff

theorem Stuck.sendLoop (h : s.Stuck) (hinv : Inv s) (hstarted : s.queue.loop ≠ .notStarted) :
    s.queue.loop = .exited := by
  have hwrite : s.queue.write false = none := h.queue_eq_none (b := .write false) rfl rfl
  cases hpc : s.queue.loop with
  | notStarted => exact absurd hpc hstarted
  | exited => rfl
  | writing item => simp [WorkerRun.write, hpc] at hwrite
  | encoding item closed => simp [WorkerRun.write, hpc] at hwrite
  | select =>
    -- the context has ended when a loop has returned; otherwise there is something to receive
    rcases h.loop hinv hstarted .read with hexit | ⟨hsend, hopen, hfull⟩
    · have hdone := h.queue_eq_none (b := .loopDone) rfl rfl
      simp [WorkerRun.step, hpc, hinv.loop_done _ hexit] at hdone
    · exact absurd h (not_stuck_of_select hpc hsend hopen hfull)

theorem Stuck.watch (h : s.Stuck) (hinv : Inv s) (hstarted : s.queue.loop ≠ .notStarted) :
    s.watch = .exited := by
  have hwatch := h .watch rfl
  have hdone := hinv.send_done (h.sendLoop hinv hstarted)
  cases hpc : s.watch with
  | notStarted => exact absurd hpc (hinv.started hstarted).1
  | waiting => simp [step, hpc, hdone] at hwatch
  | exited => rfl

/-- `Stop` has been called and cannot go on only when it is done. -/
theorem Stuck.stop (h : s.Stuck) : s.queue.stop = .notCalled ∨ s.queue.stop = .done := by
  have hstop := h .stopStep rfl
  cases hpc : s.queue.stop with
  | notCalled => exact Or.inl rfl
  | done => exact Or.inr rfl
  | disconnect | stopTunnels | closeChan | closeConn =>
    simp [step, WorkerRun.stopStep, hpc] at hstop

/-- A loop that has returned, or in which the service sends, has no step but the send. -/
theorem serve_eq_none (h : s.loop l = .exited ∨ s.SendsIn l) (b : ServiceAct) :
    s.step (.serve l b) = none := by
  rcases h with hexit | ⟨i, out, hpc, hcall⟩
  · simp only [step, serviceStep, hexit]
  · cases b with
    | pushed => simp only [step, serviceStep, hpc, hcall]
    | _ => simp only [step, serviceStep, hpc]

/-- When `sendLoop` has returned, only calls of `Push` can still change the queue. -/
theorem queue_eq_none {b : WorkerAct} (hsend : s.queue.loop = .exited)
    (hpush : ∀ i out, b ≠ .push i out) (hstep : ∀ i, b ≠ .pushStep i) (hcancel : b ≠ .cancel) :
    s.step (.queue b) = none := by
  cases b with
  | push i out => exact absurd rfl (hpush i out)
  | pushStep i => exact absurd rfl (hstep i)
  | cancel => exact absurd rfl hcancel
  | stopStep | run | watch => rfl
  | loopDone | loopRecv | handOff | encode =>
    rw [step_queue rfl]
    simp [WorkerRun.step, WorkerRun.encode, hsend]
  | write ok =>
    rw [step_queue rfl]
    cases ok <;> simp [WorkerRun.step, WorkerRun.write, hsend]

theorem watch_eq_none (h : s.watch = .exited) : s.step .watch = none := by
  simp [step, h]

/-- The action of a loop that pushes. -/
theorem pushing_of_own (h : s.own (.queue (.pushStep i)) = true) : ∃ l, s.loop l = .pushing i := by
  simp only [own, Bool.or_eq_true, decide_eq_true_eq] at h
  rcases h with h | h
  · exact ⟨.read, h⟩
  · exact ⟨.tick, h⟩

/-- What is common to the two: everything but the sends and `Stop` is over. -/
theorem stuck_of_exited (hwatch : s.watch = .exited) (hsend : s.queue.loop = .exited)
    (hloops : ∀ l, s.loop l = .exited ∨ s.SendsIn l)
    (hpush : ∀ l i, s.loop l = .pushing i → s.queue.pushStep i = none)
    (hwork : s.step .workStop = none) (hstop : s.step .stopStep = none) : s.Stuck := by
  intro a hown
  cases a with
  | queue b =>
    cases b with
    | push i out => cases hown
    | cancel => cases hown
    | pushStep i =>
      obtain ⟨l, hpc⟩ := pushing_of_own hown
      rw [step_queue rfl, Option.map_eq_none_iff]
      exact hpush l i hpc
    | _ => exact queue_eq_none hsend (by simp) (by simp) (by simp)
  | run => cases hown
  | callStop => cases hown
  | workStop => exact hwork
  | stopStep => exact hstop
  | watch => exact watch_eq_none hwatch
  | serve l b => exact serve_eq_none (hloops l) b

theorem Ended.stuck (h : s.Ended) : s.Stuck := by
  obtain ⟨⟨hwatch, hsend, hread, htick⟩, hdone⟩ := h
  have hloops : ∀ l, s.loop l = .exited := by
    intro l
    cases l with
    | read => exact hread
    | tick => exact htick
  refine stuck_of_exited hwatch hsend (fun l => Or.inl (hloops l)) ?_ ?_ ?_
  · intro l i hpc
    rw [hloops l] at hpc
    cases hpc
  · simp [step, hdone]
  · simp [step, hdone, WorkerRun.stopStep]

/-- The queue is open before `Stop`. -/
theorem Inv.closed_eq_false (h : Inv s) (hstop : s.queue.stop = .notCalled) :
    s.queue.sendChan.closed = false := by
  rw [h.order.closed_iff, hstop]
  rfl

theorem Wedged.not_returned (h : s.Wedged) : ¬s.Returned := by
  rintro ⟨-, -, hread, htick⟩
  obtain ⟨l, i, out, hpc, -⟩ := h.blocked
  cases l with
  | read => exact absurd (hread.symm.trans hpc) (by simp)
  | tick => exact absurd (htick.symm.trans hpc) (by simp)

/-- No send goes through. -/
theorem Wedged.pushStep_eq_none {out : Pack} (h : s.Wedged) (hinv : Inv s)
    (hcall : s.queue.pushes i = .send out) : s.queue.pushStep i = none :=
  WorkerRun.pushStep_eq_none hcall (hinv.closed_eq_false h.notStopped) h.full

theorem Wedged.stuck (h : s.Wedged) (hinv : Inv s) : s.Stuck := by
  refine stuck_of_exited h.watch h.sendLoop h.loops ?_ ?_ ?_
  · intro l i hpc
    rcases h.loops l with hexit | ⟨j, out, hpc', hcall⟩
    · rw [hexit] at hpc
      cases hpc
    · rw [hpc'] at hpc
      cases hpc
      exact h.pushStep_eq_none hinv hcall
  · simp [step, h.not_returned]
  · simp [step, h.notStopped]

def stopRank : StopPc → Nat
  | .notCalled => 5
  | .disconnect => 4
  | .stopTunnels => 3
  | .closeChan => 2
  | .closeConn => 1
  | .done => 0

def watchRank : WatchPc → Nat
  | .waiting => 1
  | _ => 0

def sendRank : LoopPc → Nat
  | .notStarted | .exited => 0
  | _ => 1

/-- How far a call of `Push` is from the end of the loop it is in, once the queue is closed. -/
def pushRank : PushPc → Nat
  | .idle => 0
  | .panicked => 1
  | .send _ | .accepted _ | .refused _ => 2
  | .check _ | .sent _ => 3

def pcRank (pushes : Nat → PushPc) : ServiceLoopPc → Nat
  | .notStarted | .exited => 0
  | .pushing i => pushRank (pushes i)
  | _ => 1

def loopRank (s : WorkerLife) (l : ServiceLoop) : Nat := pcRank s.queue.pushes (s.loop l)

/-- How many steps of its own the worker needs at most to end, once `Stop` has been called. -/
def rank (s : WorkerLife) : Nat :=
  stopRank s.queue.stop + watchRank s.watch + sendRank s.queue.loop + s.loopRank .read +
    s.loopRank .tick

theorem rank_le (h : s.queue.stop ≠ .notCalled) : s.rank ≤ 12 := by
  have hstop : stopRank s.queue.stop ≤ 4 := by
    cases hpc : s.queue.stop with
    | notCalled => exact absurd hpc h
    | _ => decide
  have hwatch : watchRank s.watch ≤ 1 := by cases s.watch <;> simp [watchRank]
  have hsend : sendRank s.queue.loop ≤ 1 := by cases s.queue.loop <;> simp [sendRank]
  have hloop : ∀ l, s.loopRank l ≤ 3 := by
    intro l
    unfold loopRank
    cases s.loop l with
    | pushing i =>
      show pushRank (s.queue.pushes i) ≤ 3
      cases s.queue.pushes i <;> simp [pushRank]
    | _ => simp [pcRank]
  have hread := hloop .read
  have htick := hloop .tick
  unfold rank
  omega

/-- What the calls of `Push` by others do to the queue does not matter. -/
theorem Wedged.queue {q : WorkerRun} (h : s.Wedged) (hstop : q.stop = s.queue.stop)
    (hchan : q.sendChan = s.queue.sendChan) (hloop : q.loop = s.queue.loop)
    (hpush : ∀ l i out, s.loop l = .pushing i → s.queue.pushes i = .send out →
      q.pushes i = .send out) : Wedged { s with queue := q } := by
  have hsends : ∀ l, s.SendsIn l → SendsIn { s with queue := q } l := by
    rintro l ⟨i, out, hpc, hcall⟩
    exact ⟨i, out, hpc, hpush l i out hpc hcall⟩
  exact {
    notStopped := hstop.trans h.notStopped
    full := by
      show q.sendChan.cap ≤ q.sendChan.buf.length
      rw [hchan]
      exact h.full
    watch := h.watch
    sendLoop := hloop.trans h.sendLoop
    loops := fun l => (h.loops l).imp_right (hsends l)
    blocked := h.blocked.imp hsends }

/-- A call of `Push` that is not one of the loops' goes on. -/
theorem Wedged.setPush {pc : PushPc} (h : s.Wedged) (hother : ∀ l, s.loop l ≠ .pushing i) :
    Wedged { s with queue := s.queue.setPush i pc } := by
  refine h.queue rfl rfl rfl ?_
  intro l j out hpc hcall
  have hj : j ≠ i := by
    rintro rfl
    exact hother l hpc
  show Function.update s.queue.pushes i pc j = _
  rw [Function.update_of_ne hj, hcall]

theorem Wedged.pushStep {q : WorkerRun} (h : s.Wedged) (hinv : Inv s)
    (hother : ∀ l, s.loop l ≠ .pushing i) (hq : s.queue.pushStep i = some q) :
    Wedged { s with queue := q } := by
  have hnot : ∀ out, s.queue.pushes i ≠ .send out := by
    intro out hcall
    rw [h.pushStep_eq_none hinv hcall] at hq
    cases hq
  unfold WorkerRun.pushStep at hq
  split at hq
  · split at hq
    · cases hq; exact h.setPush hother
    · split at hq
      · cases hq; exact h.setPush hother
      · cases hq; exact h.setPush hother
  · next out hcall => exact absurd hcall (hnot out)
  · cases hq; exact h.setPush hother
  · cases hq

/-- Only a call of `Stop` ends the state. -/
theorem Wedged.step (h : s.Wedged) (hinv : Inv s) (ha : a ≠ .callStop)
    (hs : s.step a = some s') : s'.Wedged := by
  have hforeign : s.own a ≠ true := by
    intro hown
    rw [h.stuck hinv a hown] at hs
    cases hs
  cases a with
  | callStop => exact absurd rfl ha
  | run =>
    obtain ⟨q, hq, -⟩ := Option.map_eq_some_iff.mp hs
    rw [WorkerRun.step, if_neg (by simp [h.sendLoop])] at hq
    cases hq
  | workStop | stopStep | watch | serve => exact absurd rfl hforeign
  | queue b =>
    obtain ⟨-, hb⟩ := Option.ite_none_right_eq_some.mp hs
    obtain ⟨q, hq, rfl⟩ := Option.map_eq_some_iff.mp hb
    cases b with
    | push i out =>
      simp only [WorkerRun.step] at hq
      split at hq
      · next hidle =>
        cases hq
        exact h.setPush fun l hpc => hinv.calls l i hpc hidle
      · cases hq
    | pushStep i => exact h.pushStep hinv (fun l hpc => hforeign (own_pushStep hpc)) hq
    | cancel =>
      obtain ⟨-, ⟨⟩⟩ := Option.ite_none_right_eq_some.mp hq
      exact h.queue rfl rfl rfl fun _ _ _ _ hcall => hcall
    | _ => exact absurd rfl hforeign

theorem Wedged.run {acts : List WorkerLifeAct} (h : s.Wedged) (hinv : Inv s)
    (hacts : .callStop ∉ acts) (hrun : Lib.run WorkerLife.step s acts = some s') :
    s'.Wedged ∧ Inv s' := by
  refine (run_inv_of_remaining (I := fun s acts => (s.Wedged ∧ Inv s) ∧ .callStop ∉ acts) ?_
    ⟨⟨h, hinv⟩, hacts⟩ hrun).1
  rintro s a s' as ⟨⟨hw, hi⟩, hnot⟩ hs
  rw [List.mem_cons, not_or] at hnot
  exact ⟨⟨hw.step hi (Ne.symm hnot.1) hs, hi.step hs⟩, hnot.2⟩

/-! ### How a worker gets there -/

/-- Nobody from outside has a hand in these actions. -/
def Unprovoked (acts : List WorkerLifeAct) : Prop :=
  .callStop ∉ acts ∧ .queue .cancel ∉ acts

theorem Unprovoked.append {as bs : List WorkerLifeAct} (ha : Unprovoked as) (hb : Unprovoked bs) :
    Unprovoked (as ++ bs) := by
  simp only [Unprovoked, List.mem_append, not_or]
  exact ⟨⟨ha.1, hb.1⟩, ha.2, hb.2⟩

/-- `Tick` has failed, so that all but `Handle` is over, and `Handle` has pushed `m` packs. -/
structure Filling (n m : Nat) (s : WorkerLife) : Prop where
  notStopped : s.queue.stop = .notCalled
  running : s.queue.stopping = false
  cap : s.queue.sendChan.cap = n
  length : s.queue.sendChan.buf.length = m
  isOpen : s.queue.sendChan.closed = false
  unused : ∀ j, m ≤ j → s.queue.pushes j = .idle
  watch : s.watch = .exited
  sendLoop : s.queue.loop = .exited
  read : s.loop .read = .serving
  tick : s.loop .tick = .exited

/-- `Handle` gets a pack, and meanwhile `Tick` fails. -/
def tickFails : List WorkerLifeAct :=
  [.run, .serve .read .next, .serve .read .check, .serve .read (.decoded true), .serve .tick .next,
    .serve .tick (.ret false), .watch, .queue .loopDone]

/-- `Handle` begins to push, and comes to the send. -/
def handleSends (m : Nat) : List WorkerLifeAct :=
  [.serve .read (.push m [0]), .queue (.pushStep m)]

/-- The send goes through, and `Push` returns. -/
def handleGoesOn (m : Nat) : List WorkerLifeAct :=
  [.queue (.pushStep m), .queue (.pushStep m), .serve .read .pushed]

/-- `Handle` is at the send of its `m`-th pack. -/
def atSend (s : WorkerLife) (m : Nat) : WorkerLife :=
  { s with queue := s.queue.setPush m (.send [0]) }.setLoop .read (.pushing m)

/-- The `m`-th pack is in the queue. -/
def pushed (s : WorkerLife) (m : Nat) : WorkerLife :=
  { s with queue := { s.queue with sendChan := { s.queue.sendChan with
    buf := s.queue.sendChan.buf ++ [(m, [0])] } }.setPush m (.accepted [0]) }.setLoop .read .serving

theorem run_tickFails (n : Nat) :
    ∃ s, run step (init n) tickFails = some s ∧ Filling n 0 s :=
  ⟨_, rfl, rfl, rfl, rfl, rfl, rfl, fun _ _ => rfl, rfl, rfl, rfl, rfl⟩

section Filling

variable {n m : Nat}

theorem Filling.run_handleSends (h : Filling n m s) :
    run step s (handleSends m) = some (s.atSend m) := by
  simp [handleSends, run_cons, step, serviceStep, WorkerAct.ofQueue, WorkerRun.step,
    WorkerRun.pushStep, WorkerRun.setPush, setLoop, atSend, h.read, h.unused, h.running]

theorem Filling.run_handleGoesOn (h : Filling n m s) (hm : m < n) :
    run step (s.atSend m) (handleGoesOn m) = some (s.pushed m) := by
  have hroom : s.queue.sendChan.buf.length < s.queue.sendChan.cap := by rwa [h.length, h.cap]
  simp [handleGoesOn, run_cons, step, serviceStep, WorkerAct.ofQueue, WorkerRun.step,
    WorkerRun.pushStep, WorkerRun.setPush, setLoop, atSend, pushed, Chan.send, h.isOpen, hroom]

theorem Filling.pushed (h : Filling n m s) : Filling n (m + 1) (s.pushed m) where
  notStopped := h.notStopped
  running := h.running
  cap := h.cap
  length := by
    show (s.queue.sendChan.buf ++ [(m, [0])]).length = m + 1
    rw [List.length_append, h.length, List.length_singleton]
  isOpen := h.isOpen
  unused j hj := by
    show Function.update s.queue.pushes m _ j = .idle
    rw [Function.update_of_ne (by omega), h.unused j (by omega)]
  watch := h.watch
  sendLoop := h.sendLoop
  read := loop_setLoop_self ..
  tick := (loop_setLoop_of_ne (by decide) ..).trans h.tick

/-- With the queue full, the next send blocks for good. -/
theorem Filling.wedged (h : Filling n n s) : (s.atSend n).Wedged := by
  have hsends : (s.atSend n).SendsIn .read :=
    ⟨n, [0], loop_setLoop_self .., Function.update_self ..⟩
  exact {
    notStopped := h.notStopped
    full := by
      show s.queue.sendChan.cap ≤ s.queue.sendChan.buf.length
      rw [h.cap, h.length]
    watch := h.watch
    sendLoop := h.sendLoop
    loops := fun l => by
      cases l with
      | read => exact Or.inr hsends
      | tick => exact Or.inl ((loop_setLoop_of_ne (by decide) ..).trans h.tick)
    blocked := ⟨.read, hsends⟩ }

/-- As long as there is room, `Handle` can push. -/
theorem exists_filling (hm : m ≤ n) :
    ∃ acts s, Unprovoked acts ∧ run step (init n) acts = some s ∧ Filling n m s := by
  induction m with
  | zero =>
    obtain ⟨s, hrun, hfill⟩ := run_tickFails n
    exact ⟨tickFails, s, by simp [Unprovoked, tickFails], hrun, hfill⟩
  | succ m ih =>
    obtain ⟨acts, s, hacts, hrun, hfill⟩ := ih (Nat.le_of_succ_le hm)
    refine ⟨acts ++ (handleSends m ++ handleGoesOn m), s.pushed m, hacts.append ?_, ?_,
      hfill.pushed⟩
    · simp [Unprovoked, handleSends, handleGoesOn]
    · rw [run_append, hrun, Option.bind_some, run_append, hfill.run_handleSends, Option.bind_some,
        hfill.run_handleGoesOn hm]

end Filling

/--
**For every size of the queue a worker can be wedged** by a `Tick` that fails while `Handle` pushes.
Then, whatever happens other than a call of `Stop`, `Run` does not return and the connection stays
open.
-/
theorem wedges_for_good (replyChanSize : Nat) :
    ∃ acts s, Unprovoked acts ∧ run step (init replyChanSize) acts = some s ∧ s.Wedged ∧
      ∀ acts' s', .callStop ∉ acts' → run step s acts' = some s' →
        ¬s'.Returned ∧ s'.queue.connClosed = false := by
  obtain ⟨acts, s, hacts, hrun, hfill⟩ := exists_filling (Nat.le_refl replyChanSize)
  have hall : run step (init replyChanSize) (acts ++ handleSends replyChanSize) =
      some (s.atSend replyChanSize) := by
    rw [run_append, hrun, Option.bind_some, hfill.run_handleSends]
  refine ⟨_, _, hacts.append (by simp [Unprovoked, handleSends]), hall, hfill.wedged, ?_⟩
  intro acts' s' hnot hrun'
  obtain ⟨hwedged, hinv⟩ := hfill.wedged.run (inv_of_run hall) hnot hrun'
  refine ⟨hwedged.not_returned, ?_⟩
  refine Bool.eq_false_iff.mpr fun hconn => ?_
  have hdone := hinv.conn hconn
  rw [hwedged.notStopped] at hdone
  cases hdone

end WorkerLife

end FabricaNet.Internal
