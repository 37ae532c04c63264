import Mathlib.Logic.Function.Basic
import FabricaNet.Go.Chan
import FabricaNet.Internal.Listener
import FabricaNet.Internal.ReadLoop
import FabricaNet.Lib.Ownership
import FabricaNet.Lib.Run

/-!
# How a KCP listener hands connections over

`kcp/server/listener.go` and `kcp/server/smux.go`: the loop of `Listener.start`, the loops of
`Smux.start`, one for each session, and any number of calls of `Listener.Accept`, as steps. Without
smux the loop of the listener sends every KCP connection on `streamChan`; with it, a KCP connection
becomes a session, and the session sends the streams that it accepts. All of them draw their ids
from one generator.

How the sessions are registered is in `FabricaNet/Kcp/Smux.lean`; here `startSmux` is one step.

A connection is given by the number of those that have come before it. It lies with the goroutine
that has accepted it, in the channel, or with the call that has returned it. Its id lies where the
carrier does. Each step shifts at most one connection and at most one id
(`FabricaNet/Lib/Ownership.lean`).
-/

namespace FabricaNet.Kcp

open Go Lib Internal

/-- Where a goroutine is that accepts connections: the listener's or a session's. -/
inductive PumpPc where
  | notStarted
  /-- the `select`, which does not block -/
  | select
  /-- in `AcceptKCP` or `AcceptStream` -/
  | accept
  /-- `startSmux`; the listener's only -/
  | startSmux
  /-- `connIDGen.Next` for the connection -/
  | next (conn : Nat)
  /-- the send on `streamChan`, which may block -/
  | send (carrier : ConnCarrier)
  | exited
  /-- the send was on a closed channel -/
  | panicked

/-- Where a call of `Accept` is. -/
inductive CallPc where
  | notCalled
  | select
  | returned (r : Except Err ConnCarrier)

structure Handover where
  /-- `conf.Smux` -/
  smux : Bool
  /-- `StopTriggered` of the listener is closed -/
  triggered : Bool
  /-- the context of the listener has ended -/
  ctxDone : Bool
  /-- `StopTriggered` of a session is closed -/
  smuxTriggered : Nat → Bool
  connIDGen : ConnIDGenerator
  streamChan : Chan ConnCarrier
  /-- `none` is the goroutine of the listener, `some i` that of the `i`-th session -/
  pumps : Option Nat → PumpPc
  /-- how many sessions have been started -/
  sessions : Nat
  calls : Nat → CallPc
  /-- how many connections have come, sessions not counted -/
  arrived : Nat

/-- The steps of a goroutine that accepts connections. -/
inductive PumpAct where
  | select
  /-- `AcceptKCP` or `AcceptStream` returns a connection, or an error -/
  | accept (ok : Bool)
  /-- `newSmux` returns a session, or an error -/
  | startSmux (ok : Bool)
  | next
  | send

/-- The steps of a call of `Accept`. -/
inductive CallAct where
  | call
  /-- the case `<-l.StopTriggered()` -/
  | stop
  /-- the case `<-ctx.Done()`; every call has a context of its own -/
  | done
  /-- the case `<-l.streamChan` -/
  | recv

inductive HandoverAct where
  /-- `Stop` of the listener is called -/
  | trigger
  /-- the context of the listener ends -/
  | cancel
  /-- `stop` of the `i`-th session is called -/
  | stopSmux (i : Nat)
  | pump (p : Option Nat) (a : PumpAct)
  | call (j : Nat) (a : CallAct)

namespace Handover

/-- What `newListener` builds, with `start` running. -/
def init (smux : Bool) : Handover where
  smux := smux
  triggered := false
  ctxDone := false
  smuxTriggered := fun _ => false
  connIDGen := newConnIDGenerator NetType.kcp.toInt64
  streamChan := Chan.make 1024
  pumps := fun p => if p = none then .select else .notStarted
  sessions := 0
  calls := fun _ => .notCalled
  arrived := 0

def setPump (s : Handover) (p : Option Nat) (pc : PumpPc) : Handover :=
  { s with pumps := Function.update s.pumps p pc }

def setCall (s : Handover) (j : Nat) (pc : CallPc) : Handover :=
  { s with calls := Function.update s.calls j pc }

/-- One of the first two cases of the `select` is ready. -/
def stops (s : Handover) : Option Nat → Bool
  | none => s.triggered || s.ctxDone
  | some i => s.smuxTriggered i || s.ctxDone

/-- `AcceptKCP` or `AcceptStream` returns a connection. -/
def accepted (s : Handover) (p : Option Nat) : Handover :=
  if p = none ∧ s.smux then s.setPump p .startSmux
  else { s with arrived := s.arrived + 1 }.setPump p (.next s.arrived)

/-- `AcceptKCP` or `AcceptStream` returns an error: the listener logs it, a session ends. -/
def acceptFailed (s : Handover) : Option Nat → Handover
  | none => s.setPump none .select
  | some i => s.setPump (some i) .exited

/-- The goroutine of a new session is started. -/
def newSession (s : Handover) : Handover :=
  { s with sessions := s.sessions + 1 }.setPump (some s.sessions) .select

/-- The next step of a goroutine. -/
def pumpStep (s : Handover) (p : Option Nat) : PumpAct → Option Handover
  | .select =>
    match s.pumps p with
    | .select => some (s.setPump p (if s.stops p then .exited else .accept))
    | _ => none
  | .accept ok =>
    match s.pumps p with
    | .accept => some (if ok then s.accepted p else s.acceptFailed p)
    | _ => none
  | .startSmux ok =>
    match s.pumps p with
    | .startSmux => some ((if ok then s.newSession else s).setPump p .select)
    | _ => none
  | .next =>
    match s.pumps p with
    | .next conn =>
      let (id, gen) := s.connIDGen.next
      some ({ s with connIDGen := gen }.setPump p (.send (newConnCarrier id conn conn)))
    | _ => none
  | .send =>
    match s.pumps p with
    | .send carrier =>
      match s.streamChan.send carrier with
      | .blocked => none
      | .panic => some (s.setPump p .panicked)
      | .done c => some ({ s with streamChan := c }.setPump p .select)
    | _ => none

/-- The next step of a call of `Accept`. -/
def callStep (s : Handover) (j : Nat) : CallAct → Option Handover
  | .call =>
    match s.calls j with
    | .notCalled => some (s.setCall j .select)
    | _ => none
  | .stop =>
    match s.calls j with
    | .select =>
      if s.triggered then some (s.setCall j (.returned (.error errStopByTrigger))) else none
    | _ => none
  | .done =>
    match s.calls j with
    | .select => some (s.setCall j (.returned (.error errContext)))
    | _ => none
  | .recv =>
    match s.calls j with
    | .select =>
      match s.streamChan.recv with
      | .blocked => none
      -- a receive from a closed channel gives the zero value
      | .ended => some (s.setCall j (.returned (.ok .zero)))
      | .got carrier c => some ({ s with streamChan := c }.setCall j (.returned (.ok carrier)))
    | _ => none

def step (s : Handover) : HandoverAct → Option Handover
  | .trigger => some { s with triggered := true }
  | .cancel => some { s with ctxDone := true }
  | .stopSmux i => some { s with smuxTriggered := Function.update s.smuxTriggered i true }
  | .pump p a => s.pumpStep p a
  | .call j a => s.callStep j a

/-! ## Who has what -/

/-- Where a connection, or its carrier, can be. -/
inductive At where
  | pump (p : Option Nat)
  | chan
  | call (j : Nat)
deriving DecidableEq

section Own

variable {ρ : Type} (f : ConnCarrier → ρ) (g : Nat → Multiset ρ)

/-- What a goroutine has: `g` of a connection without an id, and `f` of a carrier. -/
def heldBy : PumpPc → Multiset ρ
  | .next conn => g conn
  | .send carrier => {f carrier}
  | _ => 0

/-- What a call has returned. -/
def returnedBy : CallPc → Multiset ρ
  | .returned (.ok carrier) => {f carrier}
  | _ => 0

def own (s : Handover) : At → Multiset ρ
  | .pump p => heldBy f g (s.pumps p)
  | .chan => (s.streamChan.buf.map f : List ρ)
  | .call j => returnedBy f (s.calls j)

end Own

/-- The connections, with what their codecs read from. -/
def conns (s : Handover) : At → Multiset (Option Nat × Option Nat) :=
  s.own (fun c => (c.conn, c.codec)) fun conn => {(some conn, some conn)}

/-- The ids that have been drawn. -/
def ids (s : Handover) : At → Multiset UInt64 := s.own (fun c => c.id) fun _ => 0

/-! ## What a step does -/

/-- What no step changes: the channel is open, and the goroutines have begun in their order. -/
structure Sane (s : Handover) : Prop where
  closed : s.streamChan.closed = false
  fresh : ∀ i, s.sessions ≤ i → s.pumps (some i) = .notStarted
  noPanic : ∀ p, s.pumps p ≠ .panicked

theorem sane_init (smux : Bool) : (init smux).Sane where
  closed := rfl
  fresh _ _ := rfl
  noPanic p := by
    unfold init
    dsimp only
    split <;> nofun

/-- The effects of the steps on the connections and the ids. -/
inductive Effect (s s' : Handover) : Prop where
  /-- no connection and no id changes its place -/
  | quiet (own : ∀ (ρ : Type) (f : ConnCarrier → ρ) (g : Nat → Multiset ρ), s'.own f g = s.own f g)
      (gen : s'.connIDGen = s.connIDGen) (arrived : s'.arrived = s.arrived)
  | arrive (p : Option Nat) (pc : s.pumps p = .accept)
      (pumps : s'.pumps = Function.update s.pumps p (.next s.arrived))
      (chan : s'.streamChan = s.streamChan) (calls : s'.calls = s.calls)
      (gen : s'.connIDGen = s.connIDGen) (arrived : s'.arrived = s.arrived + 1)
  | next (p : Option Nat) (conn : Nat) (pc : s.pumps p = .next conn)
      (pumps : s'.pumps =
        Function.update s.pumps p (.send (newConnCarrier s.connIDGen.next.1 conn conn)))
      (chan : s'.streamChan = s.streamChan) (calls : s'.calls = s.calls)
      (gen : s'.connIDGen = s.connIDGen.next.2) (arrived : s'.arrived = s.arrived)
  | send (p : Option Nat) (carrier : ConnCarrier) (pc : s.pumps p = .send carrier)
      (pumps : s'.pumps = Function.update s.pumps p .select)
      (buf : s'.streamChan.buf = s.streamChan.buf ++ [carrier]) (calls : s'.calls = s.calls)
      (gen : s'.connIDGen = s.connIDGen) (arrived : s'.arrived = s.arrived)
  | recv (j : Nat) (carrier : ConnCarrier) (pc : s.calls j = .select)
      (calls : s'.calls = Function.update s.calls j (.returned (.ok carrier)))
      (buf : s.streamChan.buf = carrier :: s'.streamChan.buf) (pumps : s'.pumps = s.pumps)
      (gen : s'.connIDGen = s.connIDGen) (arrived : s'.arrived = s.arrived)

section Frame

variable {ρ : Type} {f : ConnCarrier → ρ} {g : Nat → Multiset ρ}

/-- A goroutine goes from one point to another with nothing in its hands. -/
theorem own_setPump {s : Handover} {p : Option Nat} {pc : PumpPc}
    (h : heldBy f g pc = heldBy f g (s.pumps p)) : (s.setPump p pc).own f g = s.own f g := by
  funext k
  cases k with
  | pump q =>
    change heldBy f g (Function.update s.pumps p pc q) = heldBy f g (s.pumps q)
    by_cases hq : q = p
    · subst hq
      rw [Function.update_self, h]
    · rw [Function.update_of_ne hq]
  | chan => rfl
  | call j => rfl

theorem own_setCall {s : Handover} {j : Nat} {pc : CallPc}
    (h : returnedBy f pc = returnedBy f (s.calls j)) : (s.setCall j pc).own f g = s.own f g := by
  funext k
  cases k with
  | pump q => rfl
  | chan => rfl
  | call i =>
    change returnedBy f (Function.update s.calls j pc i) = returnedBy f (s.calls i)
    by_cases hi : i = j
    · subst hi
      rw [Function.update_self, h]
    · rw [Function.update_of_ne hi]

end Frame

theorem Effect.setPump {s : Handover} {p : Option Nat} {pc : PumpPc}
    (h : ∀ (ρ : Type) (f : ConnCarrier → ρ) (g : Nat → Multiset ρ),
      heldBy f g pc = heldBy f g (s.pumps p)) : Effect s (s.setPump p pc) :=
  .quiet (fun ρ f g => own_setPump (h ρ f g)) rfl rfl

theorem Effect.setCall {s : Handover} {j : Nat} {pc : CallPc}
    (h : ∀ (ρ : Type) (f : ConnCarrier → ρ), returnedBy f pc = returnedBy f (s.calls j)) :
    Effect s (s.setCall j pc) :=
  .quiet (fun ρ f _ => own_setCall (h ρ f)) rfl rfl

/-- A goroutine that has begun and not panicked. -/
theorem Sane.setPump {s : Handover} (h : s.Sane) {p : Option Nat} {pc : PumpPc}
    (hp : s.pumps p ≠ .notStarted) (hpc : pc ≠ .panicked) : (s.setPump p pc).Sane where
  closed := h.closed
  fresh i hi := by
    have hne : some i ≠ p := fun he => hp (he ▸ h.fresh i hi)
    exact (Function.update_of_ne hne ..).trans (h.fresh i hi)
  noPanic q := by
    change Function.update s.pumps p pc q ≠ .panicked
    by_cases hq : q = p
    · subst hq
      rwa [Function.update_self]
    · rw [Function.update_of_ne hq]
      exact h.noPanic q

/-- A new session begins with nothing in its hands. -/
theorem own_newSession {s : Handover} (h : s.Sane) {ρ : Type} (f : ConnCarrier → ρ)
    (g : Nat → Multiset ρ) : s.newSession.own f g = s.own f g := by
  have hnew := h.fresh s.sessions (Nat.le_refl _)
  exact own_setPump (s := { s with sessions := s.sessions + 1 }) (by rw [hnew]; rfl)

theorem sane_newSession {s : Handover} (h : s.Sane) : s.newSession.Sane where
  closed := h.closed
  fresh i hi := by
    have hne : some i ≠ some s.sessions := fun he => Nat.lt_irrefl i (Option.some.inj he ▸ hi)
    exact (Function.update_of_ne hne ..).trans (h.fresh i (Nat.le_of_succ_le hi))
  noPanic q := by
    change Function.update s.pumps (some s.sessions) .select q ≠ .panicked
    by_cases hq : q = some s.sessions
    · rw [hq, Function.update_self]; nofun
    · rw [Function.update_of_ne hq]; exact h.noPanic q

/-- A goroutine that has begun is not the one of the new session. -/
theorem pumps_newSession {s : Handover} (h : s.Sane) {p : Option Nat}
    (hp : s.pumps p ≠ .notStarted) : s.newSession.pumps p = s.pumps p := by
  refine Function.update_of_ne (fun he => hp ?_) ..
  rw [he]
  exact h.fresh s.sessions (Nat.le_refl _)

theorem effect_of_pumpStep {s s' : Handover} (h : s.Sane) {p : Option Nat} {a : PumpAct}
    (hs : s.pumpStep p a = some s') : Effect s s' ∧ s'.Sane := by
  cases a with
  | select =>
    simp only [pumpStep] at hs
    split at hs
    · next hpc =>
      cases hs
      have hne : s.pumps p ≠ .notStarted := by rw [hpc]; nofun
      split
      · exact ⟨.setPump fun _ _ _ => by rw [hpc]; rfl, h.setPump hne nofun⟩
      · exact ⟨.setPump fun _ _ _ => by rw [hpc]; rfl, h.setPump hne nofun⟩
    · cases hs
  | accept ok =>
    simp only [pumpStep] at hs
    split at hs
    · next hpc =>
      cases hs
      have hne : s.pumps p ≠ .notStarted := by rw [hpc]; nofun
      split
      · unfold accepted
        split
        · exact ⟨.setPump fun _ _ _ => by rw [hpc]; rfl, h.setPump hne nofun⟩
        · exact ⟨.arrive p hpc rfl rfl rfl rfl rfl,
            Sane.setPump (s := { s with arrived := s.arrived + 1 }) { h with } hne nofun⟩
      · cases p with
        | none => exact ⟨.setPump fun _ _ _ => by rw [hpc]; rfl, h.setPump hne nofun⟩
        | some i => exact ⟨.setPump fun _ _ _ => by rw [hpc]; rfl, h.setPump hne nofun⟩
    · cases hs
  | startSmux ok =>
    simp only [pumpStep] at hs
    split at hs
    · next hpc =>
      cases hs
      have hne : s.pumps p ≠ .notStarted := by rw [hpc]; nofun
      split
      · have hpc' := pumps_newSession h hne
        refine ⟨.quiet (fun _ f g => ?_) rfl rfl, (sane_newSession h).setPump (hpc' ▸ hne) nofun⟩
        rw [own_setPump (by rw [hpc', hpc]; rfl), own_newSession h]
      · exact ⟨.setPump fun _ _ _ => by rw [hpc]; rfl, h.setPump hne nofun⟩
    · cases hs
  | next =>
    simp only [pumpStep] at hs
    split at hs
    · next conn hpc =>
      have hne : s.pumps p ≠ .notStarted := by rw [hpc]; nofun
      cases hs
      exact ⟨.next p conn hpc rfl rfl rfl rfl rfl,
        Sane.setPump (s := { s with connIDGen := s.connIDGen.next.2 }) { h with } hne nofun⟩
    · cases hs
  | send =>
    simp only [pumpStep] at hs
    split at hs
    · next carrier hpc =>
      have hne : s.pumps p ≠ .notStarted := by rw [hpc]; nofun
      split at hs
      · cases hs
      · next hsend =>
        have hclosed := Chan.send_eq_panic hsend
        rw [h.closed] at hclosed
        cases hclosed
      · next c hsend =>
        cases hs
        obtain ⟨hopen, rfl⟩ := Chan.send_eq_done hsend
        exact ⟨.send p carrier hpc rfl rfl rfl rfl rfl, Sane.setPump (s := { s with
          streamChan := { s.streamChan with buf := s.streamChan.buf ++ [carrier] } })
          { h with } hne nofun⟩
    · cases hs

theorem effect_of_callStep {s s' : Handover} (h : s.Sane) {j : Nat} {a : CallAct}
    (hs : s.callStep j a = some s') : Effect s s' ∧ s'.Sane := by
  cases a with
  | call =>
    simp only [callStep] at hs
    split at hs
    · next hpc => cases hs; exact ⟨.setCall fun _ _ => by rw [hpc]; rfl, { h with }⟩
    · cases hs
  | stop =>
    simp only [callStep] at hs
    split at hs
    · next hpc =>
      split at hs
      · cases hs; exact ⟨.setCall fun _ _ => by rw [hpc]; rfl, { h with }⟩
      · cases hs
    · cases hs
  | done =>
    simp only [callStep] at hs
    split at hs
    · next hpc => cases hs; exact ⟨.setCall fun _ _ => by rw [hpc]; rfl, { h with }⟩
    · cases hs
  | recv =>
    simp only [callStep] at hs
    split at hs
    · next hpc =>
      split at hs
      · cases hs
      · next hrecv =>
        have hclosed := (Chan.recv_eq_ended hrecv).1
        rw [h.closed] at hclosed
        cases hclosed
      · next carrier c hrecv =>
        cases hs
        obtain ⟨hbuf, _, hclosed⟩ := Chan.recv_eq_got hrecv
        exact ⟨.recv j carrier hpc rfl hbuf rfl rfl rfl,
          { h with closed := hclosed.trans h.closed }⟩
    · cases hs

/-- **Every step has one of the effects.** -/
theorem effect_of_step {s s' : Handover} (h : s.Sane) {a : HandoverAct}
    (hs : s.step a = some s') : Effect s s' ∧ s'.Sane := by
  cases a with
  | trigger => cases hs; exact ⟨.quiet (fun _ _ _ => rfl) rfl rfl, { h with }⟩
  | cancel => cases hs; exact ⟨.quiet (fun _ _ _ => rfl) rfl rfl, { h with }⟩
  | stopSmux i => cases hs; exact ⟨.quiet (fun _ _ _ => rfl) rfl rfl, { h with }⟩
  | pump p a => exact effect_of_pumpStep h hs
  | call j a => exact effect_of_callStep h hs

/-! ## Shifts -/

section Shift

variable {ρ : Type} {f : ConnCarrier → ρ} {g : Nat → Multiset ρ} {live live' : ρ → Prop}
  {s s' : Handover}

/-- What one goroutine does changes nothing elsewhere, but for the channel. -/
theorem own_of_ne {p : Option Nat} {pc : PumpPc} (hpumps : s'.pumps = Function.update s.pumps p pc)
    (hcalls : s'.calls = s.calls) {k : At} (hk : k ≠ .pump p) (hchan : k ≠ .chan) :
    s'.own f g k = s.own f g k := by
  cases k with
  | pump q =>
    have hq : q ≠ p := fun he => hk (he ▸ rfl)
    simp only [own, hpumps, Function.update_of_ne hq]
  | chan => exact absurd rfl hchan
  | call j => simp only [own, hcalls]

/-- What a goroutine does by itself. -/
theorem own_of_pump {p : Option Nat} {pc : PumpPc}
    (hpumps : s'.pumps = Function.update s.pumps p pc) (hcalls : s'.calls = s.calls)
    (hchan : s'.streamChan = s.streamChan) {k : At} (hk : k ≠ .pump p) :
    s'.own f g k = s.own f g k := by
  by_cases hkc : k = .chan
  · subst hkc
    simp only [own, hchan]
  · exact own_of_ne hpumps hcalls hk hkc

/-- A send shifts the carrier into the channel. -/
theorem shift_of_send (same : ∀ a, live' a ↔ live a) {p : Option Nat} {carrier : ConnCarrier}
    (hpc : s.pumps p = .send carrier) (hpumps : s'.pumps = Function.update s.pumps p .select)
    (hbuf : s'.streamChan.buf = s.streamChan.buf ++ [carrier]) (hcalls : s'.calls = s.calls) :
    Shift live live' (s.own f g) (s'.own f g) := by
  refine .move same (.pump p) .chan (f carrier) nofun ?_ ?_ fun k => own_of_ne hpumps hcalls
  · simp only [own, hpc, hpumps, Function.update_self, heldBy]
    rfl
  · simp only [own, hbuf, List.map_append, ← Multiset.coe_add]
    rw [Multiset.add_comm]
    rfl

/-- A receive shifts it to the call. -/
theorem shift_of_recv (same : ∀ a, live' a ↔ live a) {j : Nat} {carrier : ConnCarrier}
    (hpc : s.calls j = .select)
    (hcalls : s'.calls = Function.update s.calls j (.returned (.ok carrier)))
    (hbuf : s.streamChan.buf = carrier :: s'.streamChan.buf) (hpumps : s'.pumps = s.pumps) :
    Shift live live' (s.own f g) (s'.own f g) := by
  refine .move same .chan (.call j) (f carrier) nofun ?_ ?_ fun k hchan hk => ?_
  · simp only [own, hbuf, List.map_cons, Multiset.cons_coe]
  · simp only [own, hpc, hcalls, Function.update_self, returnedBy]
    rfl
  · cases k with
    | pump q => simp only [own, hpumps]
    | chan => exact absurd rfl hchan
    | call i =>
      have hi : i ≠ j := fun he => hk (he ▸ rfl)
      simp only [own, hcalls, Function.update_of_ne hi]

end Shift

/-! ### Connections -/

/-- The connection has come, and its codec reads from it. -/
def Came (n : Nat) (a : Option Nat × Option Nat) : Prop := ∃ k < n, a = (some k, some k)

theorem came_succ {n : Nat} {a : Option Nat × Option Nat} :
    Came (n + 1) a ↔ a = (some n, some n) ∨ Came n a := by
  constructor
  · rintro ⟨k, hk, rfl⟩
    rcases Nat.lt_succ_iff_lt_or_eq.mp hk with hlt | rfl
    · exact .inr ⟨k, hlt, rfl⟩
    · exact .inl rfl
  · rintro (rfl | ⟨k, hk, rfl⟩)
    · exact ⟨n, Nat.lt_succ_self n, rfl⟩
    · exact ⟨k, Nat.lt_succ_of_lt hk, rfl⟩

/-- **A step shifts at most one connection.** -/
theorem Effect.shift_conns {s s' : Handover} (h : Effect s s') :
    Shift (Came s.arrived) (Came s'.arrived) s.conns s'.conns := by
  cases h with
  | quiet hown _ harrived =>
    exact .stay (by rw [harrived]; exact fun _ => .rfl) (congrFun (hown _ _ _))
  | arrive p hpc hpumps hchan hcalls _ harrived =>
    refine .acquire (.pump p) (some s.arrived, some s.arrived) ?_ ?_ ?_ fun k hk => ?_
    · rintro ⟨k, hk, he⟩
      cases he
      exact Nat.lt_irrefl _ hk
    · rw [harrived]
      exact fun _ => came_succ
    · simp only [conns, own, hpc, hpumps, Function.update_self, heldBy]
      rfl
    · exact own_of_pump hpumps hcalls hchan hk
  | next p conn hpc hpumps hchan hcalls _ harrived =>
    refine .stay (by rw [harrived]; exact fun _ => .rfl) fun k => ?_
    by_cases hk : k = .pump p
    · subst hk
      simp only [conns, own, hpc, hpumps, Function.update_self, heldBy]
      rfl
    · exact own_of_pump hpumps hcalls hchan hk
  | send p carrier hpc hpumps hbuf hcalls _ harrived =>
    exact shift_of_send (by rw [harrived]; exact fun _ => .rfl) hpc hpumps hbuf hcalls
  | recv j carrier hpc hcalls hbuf hpumps _ harrived =>
    exact shift_of_recv (by rw [harrived]; exact fun _ => .rfl) hpc hcalls hbuf hpumps

/-! ### Ids -/

/-- The id belongs to one of the counter values `1..n` of a KCP listener. -/
def Drawn (n : Nat) (id : UInt64) : Prop := ∃ c, 0 < c ∧ c ≤ n ∧ id.toNat = c * 16 + 2

theorem drawn_succ {n : Nat} {id id' : UInt64} (hid : id.toNat = (n + 1) * 16 + 2) :
    Drawn (n + 1) id' ↔ id' = id ∨ Drawn n id' := by
  constructor
  · rintro ⟨c, hpos, hle, heq⟩
    by_cases hc : c = n + 1
    · exact .inl (UInt64.toNat_inj.mp (by rw [heq, hid, hc]))
    · exact .inr ⟨c, hpos, by omega, heq⟩
  · rintro (rfl | ⟨c, hpos, hle, heq⟩)
    · exact ⟨n + 1, Nat.succ_pos n, Nat.le_refl _, hid⟩
    · exact ⟨c, hpos, Nat.le_succ_of_le hle, heq⟩

/-- The generator is that of a KCP listener, and has not drawn all ids. -/
structure Draws (gen : ConnIDGenerator) : Prop where
  netType : gen.netType = NetType.kcp.toInt64
  room : gen.counter.toNat + 1 < 2 ^ 60

theorem Draws.counter_next {gen : ConnIDGenerator} (h : Draws gen) :
    gen.next.2.counter.toNat = gen.counter.toNat + 1 :=
  ConnIDGenerator.toNat_next_counter h.room

theorem Draws.id_next {gen : ConnIDGenerator} (h : Draws gen) :
    gen.next.1.toNat = (gen.counter.toNat + 1) * 16 + 2 := by
  have hcounter := ConnIDGenerator.toNat_next_counter h.room
  have hroom := h.room
  change (connID (gen.counter + 1) gen.netType).toNat = _
  rw [h.netType, connID_toNat (by omega) (NetType.toUInt64_lt _), hcounter]
  rfl

/-- **A step shifts at most one id.** -/
theorem Effect.shift_ids {s s' : Handover} (h : Effect s s') (hgen : Draws s.connIDGen) :
    Shift (Drawn s.connIDGen.counter.toNat) (Drawn s'.connIDGen.counter.toNat) s.ids s'.ids := by
  cases h with
  | quiet hown gen _ => exact .stay (by rw [gen]; exact fun _ => .rfl) (congrFun (hown _ _ _))
  | arrive p hpc hpumps hchan hcalls gen _ =>
    refine .stay (by rw [gen]; exact fun _ => .rfl) fun k => ?_
    by_cases hk : k = .pump p
    · subst hk
      simp only [ids, own, hpc, hpumps, Function.update_self, heldBy]
    · exact own_of_pump hpumps hcalls hchan hk
  | next p conn hpc hpumps hchan hcalls gen _ =>
    refine .acquire (.pump p) s.connIDGen.next.1 ?_ ?_ ?_ fun k hk => ?_
    · rintro ⟨c, _, hle, heq⟩
      have hid := hgen.id_next
      omega
    · rw [gen, hgen.counter_next]
      exact fun _ => drawn_succ hgen.id_next
    · simp only [ids, own, hpc, hpumps, Function.update_self, heldBy]
      rfl
    · exact own_of_pump hpumps hcalls hchan hk
  | send p carrier hpc hpumps hbuf hcalls gen _ =>
    exact shift_of_send (by rw [gen]; exact fun _ => .rfl) hpc hpumps hbuf hcalls
  | recv j carrier hpc hcalls hbuf hpumps gen _ =>
    exact shift_of_recv (by rw [gen]; exact fun _ => .rfl) hpc hcalls hbuf hpumps

/-- The generator after a step. -/
theorem Effect.gen {s s' : Handover} (h : Effect s s') (hgen : Draws s.connIDGen) :
    s'.connIDGen.netType = NetType.kcp.toInt64 ∧
      s'.connIDGen.counter.toNat ≤ s.connIDGen.counter.toNat + 1 := by
  cases h with
  | next _ _ _ _ _ _ gen _ =>
    rw [gen, hgen.counter_next]
    exact ⟨hgen.netType, Nat.le_refl _⟩
  | quiet _ gen _ => rw [gen]; exact ⟨hgen.netType, Nat.le_succ _⟩
  | arrive _ _ _ _ _ gen _ => rw [gen]; exact ⟨hgen.netType, Nat.le_succ _⟩
  | send _ _ _ _ _ _ gen _ => rw [gen]; exact ⟨hgen.netType, Nat.le_succ _⟩
  | recv _ _ _ _ _ _ gen _ => rw [gen]; exact ⟨hgen.netType, Nat.le_succ _⟩

/-! ## Runs -/

/-- What every step keeps, with `n` steps to come. -/
structure Inv (s : Handover) (n : Nat) : Prop where
  sane : s.Sane
  conns : Placed (Came s.arrived) s.conns
  ids : Placed (Drawn s.connIDGen.counter.toNat) s.ids
  netType : s.connIDGen.netType = NetType.kcp.toInt64
  room : s.connIDGen.counter.toNat + n < 2 ^ 60

/-- At first nothing lies anywhere. -/
theorem own_init (smux : Bool) {ρ : Type} (f : ConnCarrier → ρ) (g : Nat → Multiset ρ) (k : At) :
    (init smux).own f g k = 0 := by
  cases k with
  | pump p =>
    change heldBy f g (if p = none then .select else .notStarted) = 0
    split <;> rfl
  | chan => rfl
  | call j => rfl

theorem placed_init {ρ : Type} {live : ρ → Prop} (hlive : ∀ a, ¬live a) (smux : Bool)
    (f : ConnCarrier → ρ) (g : Nat → Multiset ρ) : Placed live ((init smux).own f g) where
  nodup k := by rw [own_init]; exact Multiset.nodup_zero
  unique {k _ a} ha := by rw [own_init] at ha; exact absurd ha (Multiset.notMem_zero a)
  live_of_mem {k a} ha := by rw [own_init] at ha; exact absurd ha (Multiset.notMem_zero a)
  exists_mem ha := absurd ha (hlive _)

theorem inv_init (smux : Bool) {n : Nat} (hn : n < 2 ^ 60) : (init smux).Inv n where
  sane := sane_init smux
  conns := placed_init (fun _ ⟨_, hk, _⟩ => Nat.not_lt_zero _ hk) ..
  ids := placed_init (fun _ ⟨_, hpos, hle, _⟩ => Nat.lt_irrefl _ (Nat.lt_of_lt_of_le hpos hle)) ..
  netType := rfl
  room := by
    change 0 + n < 2 ^ 60
    omega

theorem Inv.step {s s' : Handover} {n : Nat} (h : s.Inv (n + 1)) {a : HandoverAct}
    (hs : s.step a = some s') : s'.Inv n := by
  obtain ⟨heffect, hsane⟩ := effect_of_step h.sane hs
  have hroom := h.room
  have hgen : Draws s.connIDGen := ⟨h.netType, by omega⟩
  obtain ⟨hnet, hle⟩ := heffect.gen hgen
  exact ⟨hsane, h.conns.shift heffect.shift_conns, h.ids.shift (heffect.shift_ids hgen), hnet,
    by omega⟩

/-- Every connection is handed over at most once and is not lost before. -/
structure HandedOver (s : Handover) : Prop where
  /-- a connection that has come is with one goroutine, in the channel or with one call -/
  place : ∀ k < s.arrived, ∃! at', (some k, some k) ∈ s.conns at'
  /-- and there only once -/
  once : ∀ at', (s.conns at').Nodup
  /-- `Accept` returns a connection that has come, with the codec for it and an id of KCP -/
  returned : ∀ j c, s.calls j = .returned (.ok c) →
    ∃ k < s.arrived, c.conn = some k ∧ c.codec = some k ∧ c.id ≠ 0 ∧ c.id.toNat % 16 = 2
  /-- two calls return different connections under different ids -/
  distinct : ∀ i j c c', i ≠ j → s.calls i = .returned (.ok c) → s.calls j = .returned (.ok c') →
    c.conn ≠ c'.conn ∧ c.id ≠ c'.id
  noPanic : ∀ p, s.pumps p ≠ .panicked

theorem Inv.handedOver {s : Handover} {n : Nat} (h : s.Inv n) : s.HandedOver := by
  -- what a call has returned lies with it
  have hconn : ∀ {j c}, s.calls j = .returned (.ok c) → (c.conn, c.codec) ∈ s.conns (.call j) := by
    intro j c hj
    simp only [Handover.conns, own, hj, returnedBy, Multiset.mem_singleton]
  have hid : ∀ {j c}, s.calls j = .returned (.ok c) → c.id ∈ s.ids (.call j) := by
    intro j c hj
    simp only [Handover.ids, own, hj, returnedBy, Multiset.mem_singleton]
  refine ⟨fun k hk => h.conns.existsUnique ⟨k, hk, rfl⟩, h.conns.nodup, ?_, ?_, h.sane.noPanic⟩
  · intro j c hj
    obtain ⟨k, hk, he⟩ := h.conns.live_of_mem (hconn hj)
    obtain ⟨hc, hcodec⟩ := Prod.mk.inj he
    obtain ⟨m, _, _, hm⟩ := h.ids.live_of_mem (hid hj)
    refine ⟨k, hk, hc, hcodec, fun h0 => ?_, by omega⟩
    rw [h0] at hm
    change 0 = _ at hm
    omega
  · intro i j c c' hij hi hj
    refine ⟨fun he => ?_, fun he => ?_⟩
    · obtain ⟨k, _, hk⟩ := h.conns.live_of_mem (hconn hi)
      obtain ⟨k', _, hk'⟩ := h.conns.live_of_mem (hconn hj)
      have hsame : (c.conn, c.codec) = (c'.conn, c'.codec) := by
        rw [(Prod.mk.inj hk).1, (Prod.mk.inj hk').1] at he
        rw [hk, hk', he]
      exact hij (At.call.inj (h.conns.unique (hconn hi) (hsame ▸ hconn hj)))
    · exact hij (At.call.inj (h.ids.unique (hid hi) (he ▸ hid hj)))

/--
**Every connection is handed over once.** In every interleaving of the listener's goroutine, the
sessions and the calls of `Accept`, with smux and without, also after the listener has been stopped,
as long as there are fewer than `2 ^ 60` steps: a connection that has come lies at one place; no two
calls of `Accept` return the same connection or the same id; none returns the zero carrier; and no
goroutine sends on a closed channel.
-/
theorem handed_over_once (smux : Bool) (acts : List HandoverAct) (hacts : acts.length < 2 ^ 60) :
    EachState step HandedOver (init smux) acts :=
  eachState_of_remaining (I := fun s as => s.Inv as.length) (fun _ _ _ _ h hs => h.step hs)
    (fun _ _ h => h.handedOver) (inv_init smux hacts)

/-- A KCP connection becomes a session, and a stream of the session goes to a call. -/
def oneStream : List HandoverAct :=
  [.pump none .select, .pump none (.accept true), .pump none (.startSmux true), .call 0 .call,
    .pump (some 0) .select, .pump (some 0) (.accept true), .pump (some 0) .next,
    .pump (some 0) .send, .call 0 .recv]

theorem handed_over_one_stream : ∃ s, run step (init true) oneStream = some s ∧ s.HandedOver ∧
    s.calls 0 = .returned (.ok (newConnCarrier 18 0 0)) :=
  ⟨_, rfl, (handed_over_once true oneStream (by decide)).of_run rfl, rfl⟩

end Handover

end FabricaNet.Kcp
