import Mathlib.Logic.Function.Basic
import FabricaNet.Internal.Listener
import FabricaNet.Lib.Ownership
import FabricaNet.Lib.Run

/-!
# Accepting TCP connections

`Accept` and `configure` of `tcp/server/listener.go`, called by the accept loops of `BaseServer`
(`Start`, `acceptLoop` and `accept` of `internal/server.go`), as steps. A loop that has accepted a
connection sets its socket options. When one of them fails, the deferred function of `Accept` closes
the connection; otherwise it gets an id and a goroutine, whose worker closes it in `Stop`.

* Every connection that has been accepted lies with one loop, with one worker, or is closed, and it
  is closed once. Each step shifts at most one connection (`FabricaNet/Lib/Ownership.lean`).
* Once the server is stopping and the listener is closed, an accept loop takes at most six more
  steps, and it is never stuck before it returns.

The main result has both (`accepts_and_ends`).

## What is left open

`AcceptTCP` may fail at any time, as it does after the end of the context, when the deadline of the
listener passes. It returns no connection once the listener is closed. A worker may be stopped at
any time, by the goroutine that serves it or by others: `Stop` closes its connection once.
-/

namespace FabricaNet.Tcp

open Lib Internal

/-- The calls of `configure`. -/
inductive SocketOption where
  | keepAlive
  | readBuffer
  | writeBuffer
deriving DecidableEq, Repr

/-- Where an accept loop is. -/
inductive AcceptLoopPc where
  | notStarted
  | select
  /-- in `AcceptTCP` -/
  | accept
  /-- in `configure`, the call for this option is next -/
  | configure (conn : Nat) (option : SocketOption)
  /-- in the deferred function of `Accept` -/
  | close (conn : Nat)
  /-- `connIDGen.Next` for the connection -/
  | next (conn : Nat)
  /-- `accept` starts the goroutine for the connection -/
  | spawn (carrier : ConnCarrier)
  | exited
deriving DecidableEq, Repr

structure AcceptRun where
  /-- `StopTriggered` of the server is closed -/
  triggered : Bool
  ctxDone : Bool
  /-- the listener is closed -/
  closed : Bool
  connIDGen : ConnIDGenerator
  loops : Nat → AcceptLoopPc
  /-- the connections of the workers that have not been stopped -/
  works : List ConnCarrier
  /-- the connections that have been closed -/
  closes : List (Option Nat)
  /-- how many connections `AcceptTCP` has returned -/
  arrived : Nat

/-- The steps of an accept loop. -/
inductive LoopAct where
  | select
  /-- `AcceptTCP` returns a connection, or an error -/
  | accept (ok : Bool)
  /-- a socket option is set, or not -/
  | option (ok : Bool)
  | close
  | next
  | spawn
deriving DecidableEq, Repr

inductive AcceptAct where
  /-- `Stop` of the server is called -/
  | trigger
  | cancel
  /-- `Stop` of the listener -/
  | closeListener
  | loop (l : Nat) (a : LoopAct)
  /-- `Stop` of the worker of the `i`-th connection closes it -/
  | stopWorker (i : Nat)
deriving DecidableEq, Repr

/-- The steps of the loop `l`. -/
def AcceptAct.ofLoop (l : Nat) : AcceptAct → Bool
  | .loop l' _ => l' = l
  | _ => false

/-- What comes after an option that has been set. -/
def SocketOption.after (conn : Nat) : SocketOption → AcceptLoopPc
  | .keepAlive => .configure conn .readBuffer
  | .readBuffer => .configure conn .writeBuffer
  | .writeBuffer => .next conn

namespace AcceptRun

/-- A server with `workerSize` accept loops, after `Start`. -/
def init (workerSize : Nat) : AcceptRun where
  triggered := false
  ctxDone := false
  closed := false
  connIDGen := newConnIDGenerator NetType.tcp.toInt64
  loops := fun l => if l < workerSize then .select else .notStarted
  works := []
  closes := []
  arrived := 0

def setLoop (s : AcceptRun) (l : Nat) (pc : AcceptLoopPc) : AcceptRun :=
  { s with loops := Function.update s.loops l pc }

/-- The next step of an accept loop. -/
def loopStep (s : AcceptRun) (l : Nat) : AcceptLoopPc → LoopAct → Option AcceptRun
  | .select, .select => some (s.setLoop l (if s.triggered || s.ctxDone then .exited else .accept))
  | .accept, .accept true =>
    if s.closed then none
    else some ({ s with arrived := s.arrived + 1 }.setLoop l (.configure s.arrived .keepAlive))
  -- the error is logged
  | .accept, .accept false => some (s.setLoop l .select)
  | .configure conn o, .option true => some (s.setLoop l (o.after conn))
  | .configure conn _, .option false => some (s.setLoop l (.close conn))
  | .close conn, .close => some ({ s with closes := some conn :: s.closes }.setLoop l .select)
  | .next conn, .next =>
    let (id, gen) := s.connIDGen.next
    some ({ s with connIDGen := gen }.setLoop l (.spawn (newConnCarrier id conn conn)))
  | .spawn carrier, .spawn => some ({ s with works := carrier :: s.works }.setLoop l .select)
  | _, _ => none

def step (s : AcceptRun) : AcceptAct → Option AcceptRun
  | .trigger => some { s with triggered := true }
  | .cancel => some { s with ctxDone := true }
  | .closeListener => some { s with closed := true }
  | .loop l a => s.loopStep l (s.loops l) a
  | .stopWorker i =>
    (s.works[i]?).map fun carrier =>
      { s with works := s.works.eraseIdx i, closes := carrier.conn :: s.closes }

/-! ## What a step of a loop does -/

/-- Every way in which a loop goes on, by where it is. -/
inductive LoopEffect (s : AcceptRun) (l : Nat) : AcceptLoopPc → AcceptRun → Prop
  | leave : LoopEffect s l .select (s.setLoop l .exited)
  | enter (running : s.triggered = false) : LoopEffect s l .select (s.setLoop l .accept)
  | accepted (isOpen : s.closed = false) : LoopEffect s l .accept
      ({ s with arrived := s.arrived + 1 }.setLoop l (.configure s.arrived .keepAlive))
  | failed : LoopEffect s l .accept (s.setLoop l .select)
  | set (conn : Nat) (o : SocketOption) :
      LoopEffect s l (.configure conn o) (s.setLoop l (o.after conn))
  | refused (conn : Nat) (o : SocketOption) :
      LoopEffect s l (.configure conn o) (s.setLoop l (.close conn))
  | close (conn : Nat) : LoopEffect s l (.close conn)
      ({ s with closes := some conn :: s.closes }.setLoop l .select)
  | next (conn : Nat) (id : UInt64) (gen : ConnIDGenerator) : LoopEffect s l (.next conn)
      ({ s with connIDGen := gen }.setLoop l (.spawn (newConnCarrier id conn conn)))
  | spawn (carrier : ConnCarrier) : LoopEffect s l (.spawn carrier)
      ({ s with works := carrier :: s.works }.setLoop l .select)

theorem loopStep_effect {s s' : AcceptRun} {l : Nat} {pc : AcceptLoopPc} {b : LoopAct}
    (hs : s.loopStep l pc b = some s') : LoopEffect s l pc s' := by
  unfold loopStep at hs
  split at hs
  · cases hs
    split
    · exact .leave
    · next hrun =>
      rw [Bool.or_eq_true, not_or] at hrun
      exact .enter (Bool.eq_false_iff.mpr hrun.1)
  · obtain ⟨hopen, ⟨⟩⟩ := Option.ite_none_left_eq_some.mp hs
    exact .accepted (Bool.eq_false_iff.mpr hopen)
  · cases hs; exact .failed
  · cases hs; exact .set _ _
  · cases hs; exact .refused _ _
  · cases hs; exact .close _
  · cases hs; exact .next _ _ _
  · cases hs; exact .spawn _
  · cases hs

/-! ## Who has what -/

/-- Where a connection can be. -/
inductive At where
  | loop (l : Nat)
  | worker
  | closed
deriving DecidableEq

/-- What a loop has. -/
def heldBy : AcceptLoopPc → Multiset (Option Nat)
  | .configure conn _ | .close conn | .next conn => {some conn}
  | .spawn carrier => {carrier.conn}
  | _ => 0

def own (s : AcceptRun) : At → Multiset (Option Nat)
  | .loop l => heldBy (s.loops l)
  | .worker => (s.works.map (·.conn) : List (Option Nat))
  | .closed => (s.closes : List (Option Nat))

/-- One of the first `n` connections. -/
def Came (n : Nat) (conn : Option Nat) : Prop := ∃ k < n, conn = some k

theorem came_succ {n : Nat} {conn : Option Nat} :
    Came (n + 1) conn ↔ conn = some n ∨ Came n conn := by
  constructor
  · rintro ⟨k, hk, rfl⟩
    rcases Nat.lt_succ_iff_lt_or_eq.mp hk with hlt | rfl
    · exact Or.inr ⟨k, hlt, rfl⟩
    · exact Or.inl rfl
  · rintro (rfl | ⟨k, hk, rfl⟩)
    · exact ⟨n, Nat.lt_succ_self n, rfl⟩
    · exact ⟨k, Nat.lt_succ_of_lt hk, rfl⟩

section Own

variable {s : AcceptRun} {l : Nat} {pc : AcceptLoopPc}

theorem own_loop_setLoop (s : AcceptRun) (l : Nat) (pc : AcceptLoopPc) :
    (s.setLoop l pc).own (.loop l) = heldBy pc := by
  show heldBy (Function.update s.loops l pc l) = _
  rw [Function.update_self]

theorem own_setLoop_of_ne {k : At} (hk : k ≠ .loop l) (s : AcceptRun) (pc : AcceptLoopPc) :
    (s.setLoop l pc).own k = s.own k := by
  cases k with
  | loop l' =>
    have hl : l' ≠ l := fun he => hk (he ▸ rfl)
    show heldBy (Function.update s.loops l pc l') = _
    rw [Function.update_of_ne hl]
    rfl
  | worker => rfl
  | closed => rfl

/-- A loop goes on with what it has. -/
theorem own_setLoop (h : heldBy pc = heldBy (s.loops l)) (k : At) :
    (s.setLoop l pc).own k = s.own k := by
  by_cases hk : k = .loop l
  · subst hk
    rw [own_loop_setLoop, h]
    rfl
  · exact own_setLoop_of_ne hk s pc

end Own

section Shift

variable {s s' : AcceptRun} {l : Nat} {a : AcceptAct}

theorem heldBy_after (conn : Nat) (o : SocketOption) :
    heldBy (o.after conn) = {some conn} := by
  cases o <;> rfl

/-- A new connection lies with the loop that has accepted it. -/
theorem shift_accepted (hpc : s.loops l = .accept) :
    Shift (Came s.arrived) (Came (s.arrived + 1)) s.own
      ({ s with arrived := s.arrived + 1 }.setLoop l (.configure s.arrived .keepAlive)).own := by
  refine .acquire (.loop l) (some s.arrived) ?_ (fun _ => came_succ) ?_ fun k hk =>
    own_setLoop_of_ne hk ..
  · rintro ⟨k, hk, he⟩
    cases he
    exact Nat.lt_irrefl _ hk
  · rw [own_loop_setLoop]
    show {some s.arrived} = some s.arrived ::ₘ heldBy (s.loops l)
    rw [hpc]
    rfl

/-- A loop gives its connection away. -/
theorem shift_given {t : AcceptRun} {k : At} {conn : Option Nat}
    (hheld : heldBy (s.loops l) = {conn}) (hk : k ≠ .loop l)
    (hput : t.own k = conn ::ₘ s.own k) (hframe : ∀ j, j ≠ k → t.own j = s.own j) :
    Shift (Came s.arrived) (Came s.arrived) s.own (t.setLoop l .select).own := by
  refine .move (fun _ => .rfl) (.loop l) k conn (Ne.symm hk) ?_ ?_ fun j hj hjk => ?_
  · rw [own_loop_setLoop]
    exact hheld
  · rw [own_setLoop_of_ne hk, hput]
  · rw [own_setLoop_of_ne hj, hframe j hjk]

/-- **A step of a loop shifts at most one connection.** -/
theorem shift_of_loopEffect (h : LoopEffect s l (s.loops l) s') :
    Shift (Came s.arrived) (Came s'.arrived) s.own s'.own := by
  -- a loop that keeps what it has shifts nothing
  have hstay : ∀ (t : AcceptRun) (pc : AcceptLoopPc), t.own = s.own → t.arrived = s.arrived →
      t.loops = s.loops → heldBy pc = heldBy (s.loops l) →
      Shift (Came s.arrived) (Came t.arrived) s.own (t.setLoop l pc).own := by
    intro t pc hown harrived hloops hheld
    rw [harrived]
    refine .stay (fun _ => .rfl) fun k => ?_
    rw [own_setLoop (by rw [hloops, hheld]), hown]
  generalize hpc : s.loops l = pc at h
  cases h with
  | leave | enter | failed => exact hstay s _ rfl rfl rfl (by rw [hpc]; rfl)
  | accepted => exact shift_accepted hpc
  | set conn o => exact hstay s _ rfl rfl rfl (by rw [hpc, heldBy_after]; rfl)
  | refused conn o => exact hstay s _ rfl rfl rfl (by rw [hpc]; rfl)
  | next conn id gen => exact hstay { s with connIDGen := gen } _ rfl rfl rfl (by rw [hpc]; rfl)
  | close conn =>
    refine shift_given (k := .closed) (by rw [hpc]; rfl) (by simp) rfl fun j hj => ?_
    cases j with
    | closed => exact absurd rfl hj
    | _ => rfl
  | spawn carrier =>
    refine shift_given (k := .worker) (by rw [hpc]; rfl) (by simp) rfl fun j hj => ?_
    cases j with
    | worker => exact absurd rfl hj
    | _ => rfl

/-- A worker that is stopped closes its connection. -/
theorem shift_stopWorker {i : Nat} {carrier : ConnCarrier} (hi : s.works[i]? = some carrier) :
    Shift (Came s.arrived) (Came s.arrived) s.own
      { s with works := s.works.eraseIdx i, closes := carrier.conn :: s.closes }.own := by
  obtain ⟨hlt, rfl⟩ := List.getElem?_eq_some_iff.mp hi
  refine .move (fun _ => .rfl) .worker .closed _ (by simp) ?_ rfl fun k hw hc => ?_
  · have hperm := (List.getElem_cons_eraseIdx_perm hlt).map (·.conn)
    exact (Multiset.coe_eq_coe.mpr hperm).symm
  · cases k with
    | loop l => rfl
    | worker => exact absurd rfl hw
    | closed => exact absurd rfl hc

/-- **Every step shifts at most one connection.** -/
theorem shift_of_step (hs : s.step a = some s') :
    Shift (Came s.arrived) (Came s'.arrived) s.own s'.own := by
  cases a with
  | trigger | cancel | closeListener =>
    cases hs
    exact .stay (fun _ => .rfl) fun _ => rfl
  | loop l b => exact shift_of_loopEffect (loopStep_effect hs)
  | stopWorker i =>
    obtain ⟨carrier, hi, rfl⟩ := Option.map_eq_some_iff.mp hs
    exact shift_stopWorker hi

end Shift

theorem placed_init (workerSize : Nat) :
    Placed (Came (init workerSize).arrived) (init workerSize).own := by
  have hempty : ∀ k, (init workerSize).own k = 0 := by
    intro k
    cases k with
    | loop l =>
      show heldBy (if l < workerSize then .select else .notStarted) = 0
      split <;> rfl
    | worker => rfl
    | closed => rfl
  exact {
    nodup := fun k => by rw [hempty]; exact Multiset.nodup_zero
    unique := fun {i} _ _ ha => by rw [hempty] at ha; exact absurd ha (Multiset.notMem_zero _)
    live_of_mem := fun {i} _ ha => by rw [hempty] at ha; exact absurd ha (Multiset.notMem_zero _)
    exists_mem := fun ⟨k, hk, _⟩ => absurd hk (Nat.not_lt_zero k) }

/-! ## How the loops end -/

/-- How many steps a loop takes at most once the server is stopping. -/
def rank : AcceptLoopPc → Nat
  | .notStarted | .exited => 0
  | .select => 1
  | .accept | .close _ | .spawn _ => 2
  | .next _ => 3
  | .configure _ .writeBuffer => 4
  | .configure _ .readBuffer => 5
  | .configure _ .keepAlive => 6

theorem rank_le (pc : AcceptLoopPc) : rank pc ≤ 6 := by
  unfold rank
  split <;> omega

theorem rank_after_lt (conn : Nat) (o : SocketOption) :
    rank (o.after conn) < rank (.configure conn o) := by
  cases o <;> simp [rank, SocketOption.after]

theorem lt_rank_configure (conn : Nat) (o : SocketOption) : 2 < rank (.configure conn o) := by
  cases o <;> simp [rank]

section Ending

variable {s s' : AcceptRun} {l : Nat} {a : AcceptAct}

theorem loops_setLoop_self (s : AcceptRun) (l : Nat) (pc : AcceptLoopPc) :
    (s.setLoop l pc).loops l = pc := Function.update_self ..

/-- A step of a loop leaves the other loops alone, and does not take back a stop. -/
theorem LoopEffect.frame {pc : AcceptLoopPc} (h : LoopEffect s l pc s') :
    (∀ l', l' ≠ l → s'.loops l' = s.loops l') ∧ s'.triggered = s.triggered ∧
      s'.closed = s.closed := by
  cases h <;> exact ⟨fun l' hl => Function.update_of_ne hl .., rfl, rfl⟩

/-- The server is stopping, and the listener is closed. -/
structure Stopping (s : AcceptRun) : Prop where
  triggered : s.triggered = true
  closed : s.closed = true

/-- **Each step of a loop brings it nearer to its end.** -/
theorem Stopping.rank_lt {pc : AcceptLoopPc} (h : s.Stopping) (he : LoopEffect s l pc s') :
    rank (s'.loops l) < rank pc := by
  cases he with
  | enter running => exact absurd (h.triggered.symm.trans running) (by simp)
  | accepted isOpen => exact absurd (h.closed.symm.trans isOpen) (by simp)
  | set conn o =>
    rw [loops_setLoop_self]
    exact rank_after_lt conn o
  | refused conn o =>
    rw [loops_setLoop_self]
    exact lt_rank_configure conn o
  | leave | failed | close | next | spawn =>
    rw [loops_setLoop_self]
    simp [rank]

theorem Stopping.step (h : s.Stopping) (hs : s.step a = some s') : s'.Stopping := by
  cases a with
  | trigger => cases hs; exact ⟨rfl, h.closed⟩
  | closeListener => cases hs; exact ⟨h.triggered, rfl⟩
  | cancel => cases hs; exact ⟨h.triggered, h.closed⟩
  | loop l b =>
    obtain ⟨-, htrig, hclosed⟩ := (loopStep_effect hs).frame
    exact ⟨htrig.trans h.triggered, hclosed.trans h.closed⟩
  | stopWorker i =>
    obtain ⟨carrier, -, rfl⟩ := Option.map_eq_some_iff.mp hs
    exact ⟨h.triggered, h.closed⟩

/-- A step of this loop lowers its rank, and no other step changes it. -/
theorem Stopping.rank_step (h : s.Stopping) (hs : s.step a = some s') (l : Nat) :
    rank (s'.loops l) + (if a.ofLoop l then 1 else 0) ≤ rank (s.loops l) := by
  cases a with
  | trigger | closeListener | cancel => cases hs; exact Nat.le_refl _
  | stopWorker i =>
    obtain ⟨carrier, -, rfl⟩ := Option.map_eq_some_iff.mp hs
    exact Nat.le_refl _
  | loop l' b =>
    by_cases hl : l' = l
    · subst hl
      have hlt := h.rank_lt (loopStep_effect hs)
      simpa [AcceptAct.ofLoop] using Nat.succ_le_of_lt hlt
    · rw [(loopStep_effect hs).frame.1 l (Ne.symm hl)]
      simp [AcceptAct.ofLoop, hl]

theorem Stopping.countP_le {acts : List AcceptAct} (h : s.Stopping)
    (hrun : run AcceptRun.step s acts = some s') (l : Nat) :
    rank (s'.loops l) + acts.countP (·.ofLoop l) ≤ rank (s.loops l) := by
  induction acts generalizing s with
  | nil =>
    cases hrun
    exact Nat.le_refl _
  | cons a acts ih =>
    obtain ⟨s₁, hs₁, hrest⟩ := run_cons_eq_some.mp hrun
    have hstep := h.rank_step hs₁ l
    have hih := ih (h.step hs₁) hrest
    rw [List.countP_cons]
    omega

/-- A loop that runs can take a step: `AcceptTCP` on a closed listener returns an error. -/
theorem exists_loopStep (s : AcceptRun) (l : Nat) :
    s.loops l = .notStarted ∨ s.loops l = .exited ∨ ∃ b s', s.step (.loop l b) = some s' := by
  cases hpc : s.loops l with
  | notStarted => exact Or.inl rfl
  | exited => exact Or.inr (Or.inl rfl)
  | select => exact Or.inr (Or.inr ⟨.select, _, by simp only [step, hpc]; rfl⟩)
  | accept => exact Or.inr (Or.inr ⟨.accept false, _, by simp only [step, hpc]; rfl⟩)
  | configure conn o => exact Or.inr (Or.inr ⟨.option false, _, by simp only [step, hpc]; rfl⟩)
  | close conn => exact Or.inr (Or.inr ⟨.close, _, by simp only [step, hpc]; rfl⟩)
  | next conn => exact Or.inr (Or.inr ⟨.next, _, by simp only [step, hpc]; rfl⟩)
  | spawn carrier => exact Or.inr (Or.inr ⟨.spawn, _, by simp only [step, hpc]; rfl⟩)

end Ending

/-! ## The main result -/

structure Orderly (s : AcceptRun) : Prop where
  /-- each connection that has been accepted is in one place, once -/
  placed : Placed (Came s.arrived) s.own
  /-- whatever happens later, a loop takes at most six more steps -/
  bounded : s.Stopping → ∀ l acts s', run step s acts = some s' → acts.countP (·.ofLoop l) ≤ 6
  /-- and it can go on until it returns -/
  goesOn : s.Stopping → ∀ l, s.loops l = .notStarted ∨ s.loops l = .exited ∨
    ∃ b s', s.step (.loop l b) = some s'

/--
**No connection is lost, and the accept loops end.** In every state that a server with any number of
accept loops reaches, each accepted connection is in the hands of one loop, of one worker, or has
been closed once; and once the server is stopping with its listener closed, each loop returns.
-/
theorem accepts_and_ends (workerSize : Nat) (acts : List AcceptAct) :
    EachState step Orderly (init workerSize) acts := by
  refine eachState_of_remaining (I := fun s _ => Placed (Came s.arrived) s.own)
    (fun s a s' _ h hs => h.shift (shift_of_step hs)) ?_ (placed_init workerSize)
  intro s _ hplaced
  refine ⟨hplaced, fun hstop l acts s' hrun => ?_, fun _ => exists_loopStep s⟩
  have hcount := hstop.countP_le hrun l
  have hrank := rank_le (s.loops l)
  omega

end AcceptRun

end FabricaNet.Tcp
