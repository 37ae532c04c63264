import Mathlib.Data.List.Perm.Basic
import FabricaNet.Internal.Worker

/-!
# Packs that are accepted and packs that are encoded

Where is a pack after `Push` has returned nil? In `sendChan`, in the hands of `sendLoop`, or passed
to `Encode`, as long as no `write` fails (`Conserved`). `Stop` closes the connection without
waiting for `sendLoop`, so at that moment the accepted packs have all been encoded exactly when
none of them is in one of the first two places.
-/

namespace FabricaNet.Internal

open Go Lib Xnet

/-- The pack that a call of `Push` has sent. -/
def PushPc.queued : PushPc → Option Pack
  | .sent out | .accepted out => some out
  | _ => none

namespace WorkerRun

/-- The pack between the receive and the call of `Encode`. -/
def inHand (s : WorkerRun) : List Item :=
  match s.loop with
  | .writing item => [item]
  | _ => []

/-- The packs that have been sent and not been passed to `Encode`. -/
def pending (s : WorkerRun) : List Item := s.inHand ++ s.sendChan.buf

/-- Every pack for which `Push` has returned nil has been passed to `Encode`. -/
def Drained (s : WorkerRun) : Prop := ∀ i out, s.pushes i = .accepted out → (i, out) ∈ s.encoded

/-- No pack for which `Push` has returned nil is in `sendChan` or in the hands of `sendLoop`. -/
def Emptied (s : WorkerRun) : Prop := ∀ item ∈ s.pending, s.pushes item.1 ≠ .accepted item.2

instance (s : WorkerRun) : Decidable s.Emptied := by unfold Emptied; infer_instance

/-- The action is the `conn.Close` of `Stop`. -/
abbrev ClosesConn (s : WorkerRun) (a : WorkerAct) : Prop := a = .stopStep ∧ s.stop = .closeConn

/-! ## No pack is lost or duplicated -/

/-- A pack is in exactly one place from the end of its send on. -/
structure Conserved (s : WorkerRun) : Prop where
  mem_iff : ∀ i out, (i, out) ∈ s.encoded ++ s.pending ↔ (s.pushes i).queued = some out
  nodup : (s.encoded ++ s.pending).Nodup

theorem conserved_init (replyChanSize : Nat) : Conserved (init replyChanSize) :=
  ⟨fun _ _ => by simp [init, pending, inHand, Chan.make, PushPc.queued], List.nodup_nil⟩

variable {s s' : WorkerRun} {a : WorkerAct} {i : Nat} {out : Pack} {pc : PushPc}

theorem Conserved.congr (h : Conserved s)
    (hitems : s'.encoded ++ s'.pending = s.encoded ++ s.pending)
    (hpushes : ∀ i, (s'.pushes i).queued = (s.pushes i).queued) : Conserved s' :=
  ⟨fun i out => by rw [hitems, hpushes i]; exact h.mem_iff i out, hitems ▸ h.nodup⟩

theorem queued_setPush (hpc : pc.queued = (s.pushes i).queued) (j : Nat) :
    ((s.setPush i pc).pushes j).queued = (s.pushes j).queued := by
  show (Function.update s.pushes i pc j).queued = _
  by_cases hj : j = i
  · rw [hj, Function.update_self, hpc]
  · rw [Function.update_of_ne hj]

/-- The end of a send: the pack is new, and comes to one place. -/
theorem Conserved.sent (h : Conserved s) (hpc : s.pushes i = .send out)
    (hperm : (s'.encoded ++ s'.pending).Perm ((i, out) :: (s.encoded ++ s.pending)))
    (hpushes : s'.pushes = Function.update s.pushes i (.sent out)) : Conserved s' where
  mem_iff j out' := by
    rw [hperm.mem_iff, List.mem_cons, h.mem_iff, hpushes]
    by_cases hj : j = i
    · rw [hj, Function.update_self, hpc]
      simp [PushPc.queued, eq_comm]
    · simp [hj]
  nodup := by
    rw [hperm.nodup_iff, List.nodup_cons, h.mem_iff, hpc]
    exact ⟨nofun, h.nodup⟩

/-- **Every step other than a failed `write` conserves the packs.** -/
theorem Conserved.step (h : Conserved s) (hs : s.step a = some s') (ha : a ≠ .write false) :
    Conserved s' := by
  cases step_effect hs with
  | push pc | refuse err pc | pass pc running | panic pc closed | accept pc =>
    exact h.congr rfl (queued_setPush (by rw [pc]; rfl))
  | enqueue pc =>
    refine h.sent pc ?_ rfl
    show (s.encoded ++ (s.inHand ++ (s.sendChan.buf ++ [_]))).Perm _
    rw [← List.append_assoc s.inHand, ← List.append_assoc]
    exact List.perm_append_singleton ..
  | handOff hloop pc =>
    -- nothing is in hand before, and the pack comes in front of the buffer
    refine h.sent pc ?_ rfl
    show (s.encoded ++ ([_] ++ s.sendChan.buf)).Perm (_ :: (s.encoded ++ (s.inHand ++ _)))
    rw [show s.inHand = [] by unfold inHand; rw [hloop]]
    exact List.perm_middle
  | recv hloop hbuf =>
    refine h.congr ?_ fun _ => rfl
    unfold pending inHand
    rw [hloop, hbuf]
    rfl
  | encode hloop =>
    refine h.congr ?_ fun _ => rfl
    unfold pending inHand
    rw [hloop, List.append_assoc]
    rfl
  | run hloop | written hloop | exit _ hloop act =>
    refine h.congr ?_ fun _ => rfl
    unfold pending inHand
    rw [hloop]
  | writeFailed => exact absurd rfl ha
  | _ => exact h.congr rfl fun _ => rfl

theorem Conserved.drained_iff (h : Conserved s) : s.Drained ↔ s.Emptied := by
  constructor
  · intro hd item hitem hacc
    exact (List.nodup_append.mp h.nodup).2.2 item (hd item.1 item.2 hacc) item hitem rfl
  · intro he i out hacc
    have hmem : (i, out) ∈ s.encoded ++ s.pending := (h.mem_iff i out).mpr (by rw [hacc]; rfl)
    rcases List.mem_append.mp hmem with henc | hpend
    · exact henc
    · exact absurd hacc (he (i, out) hpend)

/-! ## Stop -/

/--
**In a run without failed writes, `Stop` closes the connection with every accepted pack encoded
exactly when it does so with no accepted pack in `sendChan` or in the hands of `sendLoop`.**
-/
theorem closes_drained_iff (replyChanSize : Nat) (acts : List WorkerAct)
    (h : WorkerAct.write false ∉ acts) :
    EachStep step (fun s a _ => s.ClosesConn a → s.Drained) (init replyChanSize) acts ↔
      EachStep step (fun s a _ => s.ClosesConn a → s.Emptied) (init replyChanSize) acts := by
  -- the second part of the invariant keeps the hypothesis for the rest of the run
  have h₀ : Conserved (init replyChanSize) ∧ WorkerAct.write false ∉ acts :=
    ⟨conserved_init replyChanSize, h⟩
  refine eachStep_iff (I := fun s as => Conserved s ∧ WorkerAct.write false ∉ as)
    (fun s a s' as hi hs hc => ?_) (fun s a s' as hi hs hq hclose => ?_) h₀
  · obtain ⟨hcons, hacts⟩ := hi
    obtain ⟨hne, hrest⟩ := not_or.mp (List.mem_cons.not.mp hacts)
    exact ⟨fun hclose => hcons.drained_iff.mpr (hc hclose), hcons.step hs (Ne.symm hne), hrest⟩
  · exact hi.1.drained_iff.mp (hq hclose)

/-- `sendLoop` has written the only pack before the stop. -/
theorem closes_drained_written :
    EachStep step (fun s a _ => s.ClosesConn a → s.Drained) (init 8)
      [.run, .push 0 [1], .pushStep 0, .pushStep 0, .pushStep 0, .loopRecv, .encode, .write true,
        .stopStep, .stopStep, .stopStep, .stopStep, .stopStep] :=
  (closes_drained_iff 8 _ (by decide)).mpr (by decide)

/-- `Push` returns nil, and `Stop` runs to its end before `sendLoop` receives the pack. -/
theorem closed_with_accepted_pack_queued :
    ∃ s s', run step (init 8) [.run, .push 0 [1], .pushStep 0, .pushStep 0, .pushStep 0, .stopStep,
        .stopStep, .stopStep, .stopStep] = some s ∧ s.step .stopStep = some s' ∧
      s.connClosed = false ∧ s'.connClosed = true ∧
      s.pushes 0 = .accepted [1] ∧ s.sendChan.buf = [(0, [1])] ∧ s'.encoded = [] :=
  ⟨_, _, rfl, rfl, rfl, rfl, rfl, rfl, rfl⟩

end WorkerRun

end FabricaNet.Internal
