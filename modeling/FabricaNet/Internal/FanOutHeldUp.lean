import FabricaNet.Internal.FanOut
import FabricaNet.Internal.WorkerWedge

/-!
# A wedged worker holds up the fan-out

`Multicast` and `Broadcast` of `internal/server.go` call `Push` on one worker after the other, and
each call has to return before the next one is made. Here that loop runs beside the workers, each
with its goroutines as in `FabricaNet/Internal/WorkerLife.lean`.

A wedged worker lets no send through. So the loop does not get past it, and the workers that come
after it get nothing, until somebody else stops that worker (`held_up_by_wedged`). `BaseServer.Push`
is the loop over one worker.

The loop begins after the checks of `OnStopping` and of the length of the pack. Its workers are
those of `GetByUIDs`, or those that `Walk` comes by, in the order in which it does.
-/

namespace FabricaNet.Internal

open Go Lib Xnet

/-- Where the loop is. -/
inductive FanOutPc where
  /-- between two calls of `Push` -/
  | next
  /-- in the `i`-th call of `Push` on the worker `k` -/
  | pushing (k i : Nat)
  | returned
  /-- `Push` has panicked -/
  | panicked
deriving DecidableEq, Repr

/-- The loop of one `Multicast` or `Broadcast`, and the workers of the server. -/
structure FanOutRun where
  workers : Nat → WorkerLife
  pack : Pack
  /-- the workers that are still to come -/
  todo : List Nat
  pc : FanOutPc

inductive FanOutAct where
  /-- a step of the worker `k`, or of the calls of `Push` on it -/
  | worker (k : Nat) (a : WorkerLifeAct)
  /-- the loop calls `Push` on the next worker -/
  | push (i : Nat)
  /-- that call returns -/
  | pushed
  | ret
deriving DecidableEq, Repr

namespace FanOutRun

def start (workers : Nat → WorkerLife) (pack : Pack) (targets : List Nat) : FanOutRun where
  workers := workers
  pack := pack
  todo := targets
  pc := .next

def setWorker (s : FanOutRun) (k : Nat) (w : WorkerLife) : FanOutRun :=
  { s with workers := Function.update s.workers k w }

def step (s : FanOutRun) : FanOutAct → Option FanOutRun
  | .worker k a => ((s.workers k).step a).map (s.setWorker k)
  | .push i =>
    match s.pc, s.todo with
    | .next, k :: rest =>
      ((s.workers k).step (.queue (.push i s.pack))).map fun w =>
        { s.setWorker k w with todo := rest, pc := .pushing k i }
    | _, _ => none
  | .pushed =>
    match s.pc with
    | .pushing k i =>
      match (s.workers k).queue.pushes i with
      -- the error of a call that is refused is joined to the others
      | .accepted _ | .refused _ => some { s with pc := .next }
      | .panicked => some { s with pc := .panicked }
      | _ => none
    | _ => none
  | .ret => if s.pc = .next ∧ s.todo = [] then some { s with pc := .returned } else none

end FanOutRun

/-! ## A call of `Push` on a wedged worker -/

/-- The `i`-th call of `Push` has not come past its send. -/
def WorkerRun.Waits (s : WorkerRun) (i : Nat) (pack : Pack) : Prop :=
  s.pushes i = .check pack ∨ s.pushes i = .send pack

namespace WorkerRun

variable {s s' : WorkerRun} {a : WorkerAct} {i j : Nat} {pack : Pack}

theorem Waits.setPush {pc : PushPc} (h : s.Waits i pack) (hj : j ≠ i) :
    (s.setPush j pc).Waits i pack := by
  have hsame : (s.setPush j pc).pushes i = s.pushes i := Function.update_of_ne (Ne.symm hj) ..
  unfold Waits
  rwa [hsame]

/-- On a full queue that nobody reads a call stays where it is, or comes to its send. -/
theorem Waits.pushStep (h : s.Waits i pack) (hpack : pack ≠ []) (hrun : s.stopping = false)
    (hopen : s.sendChan.closed = false) (hfull : s.sendChan.cap ≤ s.sendChan.buf.length)
    (hs : s.pushStep i = some s') : s'.Waits i pack := by
  rcases h with hcheck | hsend
  · have hpass := step_check_pass hcheck hrun hpack
    cases hpass.symm.trans hs
    exact Or.inr (pushes_setPush_self ..)
  · rw [pushStep_eq_none hsend hopen hfull] at hs
    cases hs

theorem Waits.step (h : s.Waits i pack) (hpack : pack ≠ []) (hrun : s.stopping = false)
    (hopen : s.sendChan.closed = false) (hfull : s.sendChan.cap ≤ s.sendChan.buf.length)
    (hloop : s.loop = .exited) (hs : s.step a = some s') : s'.Waits i pack := by
  by_cases ha : a = .pushStep i
  · subst ha
    exact h.pushStep hpack hrun hopen hfull hs
  have hother : ∀ {j : Nat}, a = .pushStep j → j ≠ i := by
    rintro j rfl rfl
    exact ha rfl
  cases step_effect hs with
  | push pc =>
    refine h.setPush ?_
    rintro rfl
    rcases h with hcall | hcall <;> simp [pc] at hcall
  | refuse _ _ | pass _ _ | panic _ _ | accept _ => exact h.setPush (hother rfl)
  | enqueue _ => exact Waits.setPush (s := { s with sendChan := _ }) h (hother rfl)
  | handOff loop _ =>
    rw [hloop] at loop
    cases loop
  | _ => exact h

end WorkerRun

namespace WorkerLife

variable {s s' : WorkerLife} {a : WorkerLifeAct} {i : Nat} {pack : Pack}

/-- No step of a wedged worker lets the call of `Push` get further. -/
theorem Wedged.waits_step (h : s.Wedged) (hinv : Inv s) (hpack : pack ≠ [])
    (hcall : s.queue.Waits i pack) (hs : s.step a = some s') : s'.queue.Waits i pack := by
  have hqueue : ∀ {b q}, s.queue.step b = some q → q.Waits i pack := fun hq =>
    hcall.step hpack (hinv.running h.notStopped) (hinv.closed_eq_false h.notStopped) h.full
      h.sendLoop hq
  cases step_effect hs with
  | queue _ does | run does | stop _ does | push does => exact hqueue does
  | watch | move | fail => exact hcall

theorem pushes_of_push (hs : s.step (.queue (.push i pack)) = some s') :
    s'.queue.pushes i = .check pack := by
  rw [step_queue rfl] at hs
  obtain ⟨q, hq, rfl⟩ := Option.map_eq_some_iff.mp hs
  exact WorkerRun.pushes_of_push hq

end WorkerLife

namespace FanOutRun

variable {s s' : FanOutRun} {a : FanOutAct} {j k : Nat} {post : List Nat}

/-! ## The loop -/

/-- A step of one worker leaves a wedged one wedged, unless it is the call of its `Stop`. -/
theorem wedged_update {ws : Nat → WorkerLife} {b : WorkerLifeAct} {w : WorkerLife}
    (h : (ws k).Wedged) (hinv : (ws k).Inv) (hb : j = k → b ≠ .callStop)
    (hs : (ws j).step b = some w) :
    (Function.update ws j w k).Wedged ∧ (Function.update ws j w k).Inv := by
  by_cases hj : j = k
  · subst hj
    rw [Function.update_self]
    exact ⟨h.step hinv (hb rfl) hs, hinv.step hs⟩
  · rw [Function.update_of_ne (Ne.symm hj)]
    exact ⟨h, hinv⟩

/-- The loop has not come past the worker `k`, after which `post` are to come. -/
inductive Before (k : Nat) (post : List Nat) (s : FanOutRun) : Prop
  | far (pre : List Nat) (todo : s.todo = pre ++ k :: post) (pc : s.pc ≠ .returned)
  | there (i : Nat) (todo : s.todo = post) (pc : s.pc = .pushing k i)
      (waits : (s.workers k).queue.Waits i s.pack)

/-- What holds as long as nobody calls `Stop` of the worker `k`. -/
structure HeldUp (k : Nat) (post : List Nat) (s : FanOutRun) : Prop where
  wedged : (s.workers k).Wedged
  inv : (s.workers k).Inv
  pack : s.pack ≠ []
  before : Before k post s

theorem HeldUp.worker {b : WorkerLifeAct} {w : WorkerLife} (h : HeldUp k post s)
    (hb : j = k → b ≠ .callStop) (hs : (s.workers j).step b = some w) :
    HeldUp k post (s.setWorker j w) := by
  obtain ⟨hwedged, hinv⟩ := wedged_update h.wedged h.inv hb hs
  refine ⟨hwedged, hinv, h.pack, ?_⟩
  cases h.before with
  | far pre todo pc => exact .far pre todo pc
  | there i todo pc waits =>
    refine .there i todo pc ?_
    show (Function.update s.workers j w k).queue.Waits i s.pack
    by_cases hj : j = k
    · subst hj
      rw [Function.update_self]
      exact h.wedged.waits_step h.inv h.pack waits hs
    · rw [Function.update_of_ne (Ne.symm hj)]
      exact waits

/-- The loop calls `Push` on the next worker, which may be the wedged one. -/
theorem HeldUp.push {i : Nat} {rest : List Nat} {w : WorkerLife} (h : HeldUp k post s)
    (hpc : s.pc = .next) (htodo : s.todo = j :: rest)
    (hs : (s.workers j).step (.queue (.push i s.pack)) = some w) :
    HeldUp k post { s.setWorker j w with todo := rest, pc := .pushing j i } := by
  have hworker := h.worker (j := j) (fun _ => by simp) hs
  refine ⟨hworker.wedged, hworker.inv, h.pack, ?_⟩
  cases h.before with
  | there i' _ pc =>
    rw [hpc] at pc
    cases pc
  | far pre todo pc =>
    rw [htodo] at todo
    cases pre with
    | cons j' pre' =>
      obtain ⟨-, hrest⟩ := List.cons_eq_cons.mp todo
      exact .far pre' hrest (by simp)
    | nil =>
      obtain ⟨rfl, hrest⟩ := List.cons_eq_cons.mp todo
      refine .there i hrest rfl (Or.inl ?_)
      show (Function.update s.workers j w j).queue.pushes i = .check s.pack
      rw [Function.update_self]
      exact WorkerLife.pushes_of_push hs

theorem HeldUp.step (h : HeldUp k post s) (ha : a ≠ .worker k .callStop)
    (hs : s.step a = some s') : HeldUp k post s' := by
  cases a with
  | worker j b =>
    obtain ⟨w, hw, rfl⟩ := Option.map_eq_some_iff.mp hs
    refine h.worker ?_ hw
    rintro rfl rfl
    exact ha rfl
  | push i =>
    simp only [FanOutRun.step] at hs
    split at hs
    · next j rest hpc htodo =>
      obtain ⟨w, hw, rfl⟩ := Option.map_eq_some_iff.mp hs
      exact h.push hpc htodo hw
    · cases hs
  | pushed =>
    simp only [FanOutRun.step] at hs
    split at hs
    · next j i hpc =>
      cases h.before with
      | there i' _ pc waits =>
        cases hpc.symm.trans pc
        rcases waits with hcall | hcall <;> simp [hcall] at hs
      | far pre todo _ =>
        split at hs
        · cases hs; exact ⟨h.wedged, h.inv, h.pack, .far pre todo (by simp)⟩
        · cases hs; exact ⟨h.wedged, h.inv, h.pack, .far pre todo (by simp)⟩
        · cases hs; exact ⟨h.wedged, h.inv, h.pack, .far pre todo (by simp)⟩
        · cases hs
    · cases hs
  | ret =>
    obtain ⟨⟨hpc, htodo⟩, -⟩ := Option.ite_none_right_eq_some.mp hs
    cases h.before with
    | there i _ pc =>
      rw [hpc] at pc
      cases pc
    | far pre todo _ =>
      rw [htodo] at todo
      exact absurd todo (by simp)

theorem HeldUp.run {acts : List FanOutAct} (h : HeldUp k post s)
    (hacts : .worker k .callStop ∉ acts) (hrun : Lib.run FanOutRun.step s acts = some s') :
    HeldUp k post s' := by
  refine (run_inv_of_remaining
    (I := fun s acts => HeldUp k post s ∧ .worker k .callStop ∉ acts) ?_ ⟨h, hacts⟩ hrun).1
  rintro s a s' as ⟨hheld, hnot⟩ hs
  rw [List.mem_cons, not_or] at hnot
  exact ⟨hheld.step (Ne.symm hnot.1) hs, hnot.2⟩

/--
**The loop does not get past a wedged worker.** It does not return, and the workers after that one
are still to come, whatever happens other than a call of its `Stop`.
-/
theorem held_up_by_wedged (n : Nat) (ws : Nat → WorkerLife) (pack : Pack) (before after : List Nat)
    (k : Nat) (acts₀ : List WorkerLifeAct) (acts : List FanOutAct) (s : FanOutRun)
    (hreach : run WorkerLife.step (.init n) acts₀ = some (ws k)) (hwedged : (ws k).Wedged)
    (hpack : pack ≠ []) (hacts : .worker k .callStop ∉ acts)
    (hrun : run step (start ws pack (before ++ k :: after)) acts = some s) :
    s.pc ≠ .returned ∧ after <:+ s.todo := by
  have hstart : HeldUp k after (start ws pack (before ++ k :: after)) :=
    ⟨hwedged, WorkerLife.inv_of_run hreach, hpack, .far before rfl (by simp [start])⟩
  cases (hstart.run hacts hrun).before with
  | far pre todo pc => exact ⟨pc, by rw [todo]; exact ⟨pre ++ [k], by simp⟩⟩
  | there i todo pc => exact ⟨by simp [pc], by rw [todo]⟩

/-- The run that wedges a worker with an empty queue. -/
def wedgingActs : List WorkerLifeAct := WorkerLife.tickFails ++ WorkerLife.handleSends 0

/-- The worker after that run. -/
def wedgedWorker : WorkerLife := (run WorkerLife.step (.init 0) wedgingActs).getD (.init 0)

theorem wedged_wedgedWorker : wedgedWorker.Wedged where
  notStopped := rfl
  full := Nat.le_refl 0
  watch := rfl
  sendLoop := rfl
  loops l := by
    cases l with
    | read => exact Or.inr ⟨0, [0], rfl, rfl⟩
    | tick => exact Or.inl rfl
  blocked := ⟨.read, 0, [0], rfl, rfl⟩

/-- The loop comes to its send on the first worker. -/
def sendsToFirst : List FanOutAct :=
  [.push 1, .worker 0 (.queue (.pushStep 1)), .worker 0 (.queue .cancel)]

/-- Two workers to push to, the first of them wedged. -/
theorem second_worker_waits :
    ∃ s, run step (start (fun _ => wedgedWorker) [7] [0, 1]) sendsToFirst = some s ∧
      s.pc ≠ .returned ∧ [1] <:+ s.todo :=
  ⟨_, rfl, held_up_by_wedged 0 (fun _ => wedgedWorker) [7] [] [1] 0 wedgingActs sendsToFirst _ rfl
    wedged_wedgedWorker (by simp) (by simp [sendsToFirst]) rfl⟩

end FanOutRun

end FabricaNet.Internal
