import FabricaNet.Go.StopAll
import FabricaNet.Kcp.Smux

/-!
# Stopping a KCP listener

`Listener.Stop` of `kcp/server/listener.go` beside the sessions of `SmuxRun`: it calls `Smux.stop`
of the sessions that its `Range` over `smuxSessions` comes upon, waits for these calls, and closes
the listener. `TurnOff` runs it once. The goroutine of a session may delete the session and turn it
off at any time, and `startSmux` may go on to store sessions.

Two functions turn a session off, and they are not the same. `Smux.stop` closes the smux session.
The goroutine calls `smux.Stop`, which is that of `xsync.Stoppable`: of this it is assumed that it
is `TurnOff` with a function that does nothing. `TurnOff` runs the function of its first caller
only, so that a session whose goroutine comes first is not closed.

Every session whose `startSmux` has returned when `Stop` is called is closed when `Stop` returns, or
its goroutine has turned it off or is about to; if the goroutine had ended before the call, nobody
closes the session (`stop_reaches_registered`). A session that is stored later is not reached: its
`smux.start` runs on.
-/

namespace FabricaNet.Kcp

open Go Lib

/-- Where `Listener.Stop` is. -/
inductive ListenerStopPc where
  | notCalled
  /-- up to the return of `wg.Wait`; then `l.listener.Close` is next -/
  | stopAll (p : StopAll Int64 Nat)
  | returned
deriving DecidableEq, Repr

structure ListenerStop where
  smux : SmuxRun
  stop : ListenerStopPc
  /-- the sessions that their goroutine has turned off, with `Stop` -/
  turnedOff : List Nat
  /-- the sessions that `Smux.stop` has closed -/
  closed : List Nat

inductive ListenerStopAct where
  | startSmux
  /-- a step of the `n`-th session -/
  | session (n : Nat) (b : SmuxStep)
  /-- the call of `Stop`, up to the call of `Range` -/
  | callStop
  | visit (id : Int64) (n : Nat)
  /-- the function passed to `xsync.Timeout` calls `Smux.stop` and `wg.Done` -/
  | stopSession (n : Nat)
  /-- `Range`, `wg.Wait` or `l.listener.Close` returns -/
  | stopNext
deriving DecidableEq, Repr

namespace ListenerStopPc

/-- `Range` hears what a step of the `n`-th session does to `smuxSessions`. -/
def hear (n : Nat) (id : Int64) (b : SmuxStep) : ListenerStopPc → ListenerStopPc
  | .stopAll p =>
    match b with
    | .store => .stopAll (p.stored id n)
    | .delete => .stopAll (p.deleted id)
    | _ => .stopAll p
  | pc => pc

def next : ListenerStopPc → Option ListenerStopPc
  | .stopAll .waited => some .returned
  | .stopAll p => p.next.map .stopAll
  | _ => none

/-- How far `Stop` has dealt with a session. -/
def Accounted (Off : Nat → Prop) (id : Int64) (n : Nat) : ListenerStopPc → Prop
  | .notCalled => True
  | .stopAll p => p.Accounted Off id n
  | .returned => Off n

variable {Off Off' : Nat → Prop} {id id' : Int64} {m n : Nat} {b : SmuxStep}
  {pc : ListenerStopPc}

theorem Accounted.mono (h : pc.Accounted Off id n) (hS : ∀ n, Off n → Off' n) :
    pc.Accounted Off' id n := by
  cases pc with
  | notCalled => trivial
  | stopAll p => exact StopAll.Accounted.mono (p := p) h hS
  | returned => exact hS n h

/-- What becomes of another id does not matter. -/
theorem Accounted.hear (h : pc.Accounted Off id n) (hne : id ≠ id') :
    (pc.hear m id' b).Accounted Off id n := by
  cases pc with
  | notCalled | returned => exact h
  | stopAll p =>
    cases b with
    | store => exact StopAll.Accounted.stored (p := p) h hne
    | delete => exact StopAll.Accounted.deleted (p := p) h hne
    | newSmux ok | goAndStop | startReturns | stop => exact h

/-- `Range` hears of `Store` and `Delete` only. -/
theorem hear_of_ne (hs : b ≠ .store) (hd : b ≠ .delete) : pc.hear m id' b = pc := by
  cases pc with
  | notCalled | returned => rfl
  | stopAll p =>
    cases b with
    | store => exact absurd rfl hs
    | delete => exact absurd rfl hd
    | newSmux ok | goAndStop | startReturns | stop => rfl

end ListenerStopPc

namespace ListenerStop

def init : ListenerStop := { smux := .init, stop := .notCalled, turnedOff := [], closed := [] }

/-- `TurnOff` of the session has been called. -/
def Off (s : ListenerStop) (n : Nat) : Prop := n ∈ s.turnedOff ∨ n ∈ s.closed

def step (s : ListenerStop) : ListenerStopAct → Option ListenerStop
  | .startSmux => (s.smux.step .startSmux).map fun smux => { s with smux := smux }
  | .session n b =>
    s.smux.sessions[n]?.bind fun ss => (s.smux.step (.session n b)).map fun smux =>
      { s with
        smux := smux
        stop := s.stop.hear n ss.id b
        -- also when `Smux.stop` was first: then nothing is left to be done
        turnedOff := if b = .stop then n :: s.turnedOff else s.turnedOff }
  | .callStop =>
    match s.stop with
    | .notCalled => some { s with stop := .stopAll (StopAll.start s.smux.smuxSessions) }
    | _ => none
  | .visit id n =>
    match s.stop with
    | .stopAll p => (p.visit id n).map fun p' => { s with stop := .stopAll p' }
    | _ => none
  | .stopSession n =>
    match s.stop with
    | .stopAll p =>
      -- `TurnOff` does not run the function for a session that its goroutine has turned off
      (p.done n).map fun p' => { s with
        stop := .stopAll p', closed := if n ∈ s.turnedOff then s.closed else n :: s.closed }
    | _ => none
  | .stopNext => s.stop.next.map fun pc => { s with stop := pc }

variable {s s' : ListenerStop} {a : ListenerStopAct}

/-- What the actions do. -/
inductive Effect (s : ListenerStop) : ListenerStopAct → ListenerStop → Prop
  | startSmux {smux : SmuxRun} (step : s.smux.step .startSmux = some smux) :
      Effect s .startSmux { s with smux := smux }
  | session {n : Nat} {b : SmuxStep} {ss : SmuxSession} {smux : SmuxRun}
      (at_ : s.smux.sessions[n]? = some ss) (step : s.smux.step (.session n b) = some smux) :
      Effect s (.session n b)
        { s with
          smux := smux
          stop := s.stop.hear n ss.id b
          turnedOff := if b = .stop then n :: s.turnedOff else s.turnedOff }
  | callStop (pc : s.stop = .notCalled) : Effect s .callStop
      { s with stop := .stopAll (StopAll.start s.smux.smuxSessions) }
  | visit {id : Int64} {n : Nat} {p p' : StopAll Int64 Nat} (pc : s.stop = .stopAll p)
      (visit : p.visit id n = some p') : Effect s (.visit id n) { s with stop := .stopAll p' }
  | stopSession {n : Nat} {p p' : StopAll Int64 Nat} (pc : s.stop = .stopAll p)
      (done : p.done n = some p') : Effect s (.stopSession n)
      { s with
        stop := .stopAll p', closed := if n ∈ s.turnedOff then s.closed else n :: s.closed }
  | stopNext {p p' : StopAll Int64 Nat} (pc : s.stop = .stopAll p) (next : p.next = some p') :
      Effect s .stopNext { s with stop := .stopAll p' }
  | closeListener (pc : s.stop = .stopAll .waited) : Effect s .stopNext { s with stop := .returned }

theorem step_effect (h : s.step a = some s') : Effect s a s' := by
  cases a with
  | startSmux =>
    simp only [step, Option.map_eq_some_iff] at h
    obtain ⟨smux, hstep, rfl⟩ := h
    exact .startSmux hstep
  | session n b =>
    obtain ⟨ss, hat, h⟩ := Option.bind_eq_some_iff.mp h
    obtain ⟨smux, hstep, ⟨⟩⟩ := Option.map_eq_some_iff.mp h
    exact .session hat hstep
  | callStop =>
    simp only [step] at h
    split at h
    · next hpc => cases h; exact .callStop hpc
    · cases h
  | visit id n =>
    simp only [step] at h
    split at h
    · next p hpc =>
      obtain ⟨p', hvisit, ⟨⟩⟩ := Option.map_eq_some_iff.mp h
      exact .visit hpc hvisit
    · cases h
  | stopSession n =>
    simp only [step] at h
    split at h
    · next p hpc =>
      obtain ⟨p', hdone, ⟨⟩⟩ := Option.map_eq_some_iff.mp h
      exact .stopSession hpc hdone
    · cases h
  | stopNext =>
    obtain ⟨pc, hnext, ⟨⟩⟩ := Option.map_eq_some_iff.mp h
    unfold ListenerStopPc.next at hnext
    split at hnext
    · next hpc => cases hnext; exact .closeListener hpc
    · next p _ hpc =>
      obtain ⟨p', hp, rfl⟩ := Option.map_eq_some_iff.mp hnext
      exact .stopNext hpc hp
    · cases hnext

/-! ## The sessions and the map -/

/-- Every session that is live is in the map, under its id. -/
def Finds (r : SmuxRun) : Prop :=
  ∀ n ss, r.sessions[n]? = some ss → ss.live = true → r.smuxSessions.load ss.id = some n

/-- After a step of the `n`-th session the others are what they were. -/
theorem getElem?_set_cases {α : Type} {xs : List α} {m n : Nat} {x x' y : α}
    (hx : xs[n]? = some x) (hy : (xs.set n x')[m]? = some y) :
    (m = n ∧ y = x') ∨ (m ≠ n ∧ xs[m]? = some y) := by
  by_cases hm : n = m
  · subst hm
    rw [List.getElem?_set_self (List.getElem?_eq_some_iff.mp hx).1] at hy
    exact Or.inl ⟨rfl, (Option.some.inj hy).symm⟩
  · rw [List.getElem?_set_ne hm] at hy
    exact Or.inr ⟨fun h => hm h.symm, hy⟩

/-- A session of the list with one more call was there before, or has just begun. -/
theorem getElem?_append_init {xs : List SmuxSession} {n : Nat} {id : Int64} {ss : SmuxSession}
    (h : (xs ++ [.init id])[n]? = some ss) : xs[n]? = some ss ∨ ss = .init id := by
  rw [List.getElem?_append] at h
  split at h
  · exact Or.inl h
  · exact Or.inr (List.mem_singleton.mp (List.mem_of_getElem? h))

section Sessions

variable {r r' : SmuxRun} {b : SmuxAct}

/-- **One step keeps every live session in the map**, as long as ids are not used again. -/
theorem Finds.step (h : Finds r) (hnum : r.Numbered) (hfew : r.sessions.length < 2 ^ 64)
    (hs : r.step b = some r') : Finds r' := by
  cases SmuxRun.step_effect hs with
  | call =>
    intro n ss hat hlive
    rcases getElem?_append_init hat with hat | rfl
    · exact h n ss hat hlive
    · cases hlive
  | @session n b ss ss' hat hstep =>
    intro m e he hlive
    have hid := SmuxSession.step_id hstep
    rcases getElem?_set_cases hat he with ⟨rfl, rfl⟩ | ⟨hm, he⟩
    · -- the session itself: its own `Store`, or a step that leaves the map alone
      cases b with
      | store =>
        rw [hid]
        exact (SyncMap.load_store ..).trans (if_pos rfl)
      | delete =>
        rw [SmuxSession.live_of_delete hstep] at hlive
        cases hlive
      | newSmux ok | goAndStop | startReturns | stop =>
        rw [SmuxSession.live_of_step hstep nofun nofun] at hlive
        rw [hid]
        exact h m ss hat hlive
    · have hne : e.id ≠ ss.id := fun heq => hm (hnum.id_inj hfew he hat heq)
      have hload := h m e he hlive
      cases b with
      | store => exact (SyncMap.load_store ..).trans ((if_neg hne).trans hload)
      | delete => exact (SyncMap.load_delete ..).trans ((if_neg hne).trans hload)
      | newSmux ok | goAndStop | startReturns | stop => exact hload

end Sessions

/-- A session that is turned off stays so. -/
theorem Off.step {n : Nat} (h : s.Off n) (hs : s.step a = some s') : s'.Off n := by
  cases step_effect hs with
  | session hat hstep =>
    refine h.imp_left fun hn => ?_
    dsimp only
    split
    · exact List.mem_cons_of_mem _ hn
    · exact hn
  | stopSession pc hdone =>
    refine h.imp_right fun hn => ?_
    dsimp only
    split
    · exact hn
    · exact List.mem_cons_of_mem _ hn
  | startSmux | callStop | visit | stopNext | closeListener => exact h

/-- A session that its goroutine has turned off, before `Smux.stop`. -/
def OwnFirst (s : ListenerStop) (n : Nat) : Prop := n ∈ s.turnedOff ∧ n ∉ s.closed

/-- **Nobody closes a session that its goroutine has turned off first.** -/
theorem OwnFirst.step {n : Nat} (h : s.OwnFirst n) (hs : s.step a = some s') : s'.OwnFirst n := by
  cases step_effect hs with
  | session hat hstep =>
    refine ⟨?_, h.2⟩
    dsimp only
    split
    · exact List.mem_cons_of_mem _ h.1
    · exact h.1
  | @stopSession k p p' pc hdone =>
    refine ⟨h.1, ?_⟩
    dsimp only
    split
    · exact h.2
    · next hk =>
      intro hn
      rcases List.mem_cons.mp hn with rfl | hn
      · exact hk h.1
      · exact h.2 hn
  | startSmux | callStop | visit | stopNext | closeListener => exact h

/--
Ids are given in order, live sessions are in the map, the goroutines that have ended have turned
their session off, and nothing is closed before `Stop`.
-/
structure Inv (s : ListenerStop) : Prop where
  numbered : s.smux.Numbered
  finds : Finds s.smux
  ended : ∀ n ss, s.smux.sessions[n]? = some ss → ss.goroutine = .ended → n ∈ s.turnedOff
  early : s.stop = .notCalled → s.closed = []

theorem inv_init : Inv init where
  numbered := SmuxRun.numbered_init
  finds := fun n ss hat => by cases hat
  ended := fun n ss hat => by cases hat
  early := fun _ => rfl

theorem goroutine_of_ended {b : SmuxStep} {ss ss' : SmuxSession} (h : ss.step b = some ss')
    (hended : ss'.goroutine = .ended) : b = .stop ∨ ss.goroutine = .ended := by
  cases b with
  | stop => exact Or.inl rfl
  | newSmux ok | goAndStop | store | startReturns | delete =>
    obtain ⟨-, ⟨⟩⟩ := Option.ite_none_right_eq_some.mp h
    first | exact Or.inr hended | cases hended

theorem hear_eq_notCalled {pc : ListenerStopPc} {n : Nat} {id : Int64} {b : SmuxStep}
    (h : pc.hear n id b = .notCalled) : pc = .notCalled := by
  cases pc with
  | notCalled => rfl
  | returned => cases h
  | stopAll p => cases b <;> cases h

theorem Inv.step (h : Inv s) (hfew : s.smux.sessions.length < 2 ^ 64) (hs : s.step a = some s') :
    Inv s' := by
  cases step_effect hs with
  | startSmux hstep =>
    refine ⟨h.numbered.step hstep, h.finds.step h.numbered hfew hstep, fun n ss hat hended => ?_,
      h.early⟩
    cases hstep
    rcases getElem?_append_init hat with hat | rfl
    · exact h.ended n ss hat hended
    · cases hended
  | @session n b ss smux hat hstep =>
    refine ⟨h.numbered.step hstep, h.finds.step h.numbered hfew hstep, fun m e he hended => ?_,
      fun hpc => h.early (hear_eq_notCalled hpc)⟩
    have hmono : ∀ k ∈ s.turnedOff, k ∈ if b = .stop then n :: s.turnedOff else s.turnedOff := by
      intro k hk
      split
      · exact List.mem_cons_of_mem n hk
      · exact hk
    cases SmuxRun.step_effect hstep with
    | session hat' hss =>
      cases hat.symm.trans hat'
      rcases getElem?_set_cases hat he with ⟨rfl, rfl⟩ | ⟨-, he⟩
      · rcases goroutine_of_ended hss hended with rfl | hended
        · simp
        · exact hmono m (h.ended m ss hat hended)
      · exact hmono m (h.ended m e he hended)
  | callStop pc | visit pc _ | stopSession pc _ | stopNext pc _ | closeListener pc =>
    exact ⟨h.numbered, h.finds, h.ended, fun hpc => by cases hpc⟩

/-! ## What `Stop` reaches -/

/-- The sessions in `T` are registered, and `Stop` accounts for those that are live. -/
structure Reaches (T : Nat → Prop) (s : ListenerStop) : Prop where
  registered : ∀ n, T n → ∃ ss, s.smux.sessions[n]? = some ss ∧ ss.call = .returned
  accounted : ∀ n ss, T n → s.smux.sessions[n]? = some ss → ss.live = true →
    s.stop.Accounted s.Off ss.id n

variable {T : Nat → Prop}

/-- A call of `startSmux` that has returned takes no more steps. -/
theorem call_of_returned {b : SmuxStep} {ss ss' : SmuxSession} (h : ss.step b = some ss')
    (hcall : ss.call = .returned) : ss'.call = .returned ∧ b ≠ .store := by
  cases b with
  | newSmux ok | goAndStop | store =>
    obtain ⟨hpc, -⟩ := Option.ite_none_right_eq_some.mp h
    rw [hcall] at hpc
    cases hpc
  | startReturns | delete | stop =>
    obtain ⟨-, ⟨⟩⟩ := Option.ite_none_right_eq_some.mp h
    exact ⟨hcall, nofun⟩

theorem Reaches.startSmux (h : Reaches T s) {smux : SmuxRun}
    (hs : s.smux.step .startSmux = some smux) : Reaches T { s with smux := smux } := by
  cases hs
  refine ⟨fun n hn => ?_, fun n ss hn hat hlive => ?_⟩
  · obtain ⟨ss, hat, hcall⟩ := h.registered n hn
    have hlt := (List.getElem?_eq_some_iff.mp hat).1
    exact ⟨ss, (List.getElem?_append_left hlt).trans hat, hcall⟩
  · rcases getElem?_append_init hat with hat | rfl
    · exact h.accounted n ss hn hat hlive
    · cases hlive

theorem Reaches.session (h : Reaches T s) (hinv : Inv s)
    (hfew : s.smux.sessions.length < 2 ^ 64) {n : Nat} {b : SmuxStep} {ss : SmuxSession}
    {smux : SmuxRun} (hat : s.smux.sessions[n]? = some ss)
    (hs : s.smux.step (.session n b) = some smux) :
    Reaches T
      { s with
        smux := smux
        stop := s.stop.hear n ss.id b
        turnedOff := if b = .stop then n :: s.turnedOff else s.turnedOff } := by
  cases SmuxRun.step_effect hs with
  | @session _ _ _ ss' hat' hss =>
    cases hat.symm.trans hat'
    refine ⟨fun m hm => ?_, fun m e hm he hlive => ?_⟩
    · obtain ⟨e, he, hcall⟩ := h.registered m hm
      by_cases hmn : n = m
      · subst hmn
        cases hat.symm.trans he
        exact ⟨ss', List.getElem?_set_self (List.getElem?_eq_some_iff.mp hat).1,
          (call_of_returned hss hcall).1⟩
      · exact ⟨e, (List.getElem?_set_ne hmn).trans he, hcall⟩
    · have hacc : (s.stop.hear n ss.id b).Accounted s.Off e.id m := by
        rcases getElem?_set_cases hat he with ⟨rfl, rfl⟩ | ⟨hmn, he⟩
        · -- the session itself has been stored, and is not deleted by this step
          obtain ⟨e', he', hcall⟩ := h.registered m hm
          cases hat.symm.trans he'
          have hstore := (call_of_returned hss hcall).2
          have hdelete : b ≠ .delete := by
            rintro rfl
            rw [SmuxSession.live_of_delete hss] at hlive
            cases hlive
          rw [ListenerStopPc.hear_of_ne hstore hdelete, SmuxSession.step_id hss]
          rw [SmuxSession.live_of_step hss hstore hdelete] at hlive
          exact h.accounted m ss hm hat hlive
        · refine (h.accounted m e hm he hlive).hear fun heq => hmn ?_
          exact hinv.numbered.id_inj hfew he hat heq
      refine hacc.mono fun k hk => Off.step (a := .session n b) hk ?_
      simp [ListenerStop.step, hat, hs]

/-- **One step: `Stop` goes on to account for the sessions in `T`.** -/
theorem Reaches.step (h : Reaches T s) (hinv : Inv s) (hfew : s.smux.sessions.length < 2 ^ 64)
    (hs : s.step a = some s') : Reaches T s' := by
  cases step_effect hs with
  | startSmux hstep => exact h.startSmux hstep
  | session hat hstep => exact h.session hinv hfew hat hstep
  | callStop pc =>
    exact ⟨h.registered, fun n ss _ hat hlive =>
      StopAll.accounted_start (hinv.finds n ss hat hlive)⟩
  | visit pc hvisit =>
    refine ⟨h.registered, fun n ss hn hat hlive => ?_⟩
    have hacc := h.accounted n ss hn hat hlive
    rw [pc] at hacc
    exact StopAll.Accounted.visit hacc hvisit
  | @stopSession k p p' pc hdone =>
    refine ⟨h.registered, fun n ss hn hat hlive => ?_⟩
    have hacc := h.accounted n ss hn hat hlive
    rw [pc] at hacc
    have hmore : p.Accounted (Off _) ss.id n :=
      StopAll.Accounted.mono hacc fun m hm => Off.step hm hs
    refine hmore.done hdone ?_
    by_cases hk : k ∈ s.turnedOff
    · exact Or.inl hk
    · exact Or.inr (by simp [hk])
  | stopNext pc hnext =>
    refine ⟨h.registered, fun n ss hn hat hlive => ?_⟩
    have hacc := h.accounted n ss hn hat hlive
    rw [pc] at hacc
    exact StopAll.Accounted.next hacc hnext
  | closeListener pc =>
    refine ⟨h.registered, fun n ss hn hat hlive => ?_⟩
    have hacc := h.accounted n ss hn hat hlive
    rw [pc] at hacc
    exact hacc

/-- The counter does not wrap around in the calls that are to come. -/
def Room (s : ListenerStop) (as : List ListenerStopAct) : Prop :=
  s.smux.sessions.length + as.count .startSmux < 2 ^ 64

theorem Room.few {as : List ListenerStopAct} (h : Room s as) :
    s.smux.sessions.length < 2 ^ 64 :=
  Nat.lt_of_le_of_lt (Nat.le_add_right ..) h

theorem Room.step {as : List ListenerStopAct} (h : Room s (a :: as)) (hs : s.step a = some s') :
    Room s' as := by
  unfold Room at h ⊢
  cases step_effect hs with
  | startSmux hstep =>
    cases hstep
    rw [List.count_cons_self] at h
    rw [List.length_append, List.length_singleton]
    omega
  | session hat hstep =>
    have hlen := SmuxRun.length_of_step hstep []
    rw [List.count_cons_of_ne SmuxAct.noConfusion, List.count_nil] at hlen
    rw [List.count_cons_of_ne ListenerStopAct.noConfusion] at h
    dsimp only
    omega
  | callStop | visit | stopSession | stopNext | closeListener =>
    rw [List.count_cons_of_ne ListenerStopAct.noConfusion] at h
    exact h

theorem inv_run {as bs : List ListenerStopAct} (h : Inv s) (hroom : Room s (as ++ bs))
    (hrun : run step s as = some s') : Inv s' ∧ Room s' bs := by
  refine run_inv_of_remaining (I := fun s as => Inv s ∧ Room s (as ++ bs)) ?_ ⟨h, hroom⟩ hrun
  rintro s a s' as ⟨hinv, hroom⟩ hs
  exact ⟨hinv.step hroom.few hs, hroom.step hs⟩

theorem reaches_run {as : List ListenerStopAct} (h : Reaches T s) (hinv : Inv s)
    (hroom : Room s as) (hrun : run step s as = some s') : Reaches T s' ∧ Inv s' := by
  have hlast : (Reaches T s' ∧ Inv s') ∧ Room s' [] := by
    refine run_inv_of_remaining (I := fun s as => (Reaches T s ∧ Inv s) ∧ Room s as) ?_
      ⟨⟨h, hinv⟩, hroom⟩ hrun
    rintro s a s' as ⟨⟨h, hinv⟩, hroom⟩ hs
    exact ⟨⟨h.step hinv hroom.few hs, hinv.step hroom.few hs⟩, hroom.step hs⟩
  exact hlast.1

theorem ownFirst_run {as : List ListenerStopAct} {n : Nat} (h : s.OwnFirst n)
    (hrun : run step s as = some s') : s'.OwnFirst n :=
  run_inv_of_remaining (I := fun s _ => s.OwnFirst n) (fun _ _ _ _ h hs => h.step hs) h hrun

/-- The session is closed, or its goroutine has turned it off, or is about to. -/
def StoppedAt (s : ListenerStop) (n : Nat) : Prop :=
  n ∈ s.closed ∨ n ∈ s.turnedOff ∨ ∃ ss, s.smux.sessions[n]? = some ss ∧ ss.goroutine = .stop

theorem Reaches.stoppedAt (h : Reaches T s) (hinv : Inv s) (hpc : s.stop = .returned) {n : Nat}
    (hn : T n) : s.StoppedAt n := by
  obtain ⟨ss, hat, hcall⟩ := h.registered n hn
  by_cases hlive : ss.live = true
  · have hacc := h.accounted n ss hn hat hlive
    rw [hpc] at hacc
    exact hacc.elim (fun hoff => Or.inr (Or.inl hoff)) Or.inl
  · have hdeleted : ss.deleted = true := by simpa [SmuxSession.live, hcall] using hlive
    have hgone : ss.goroutine = .stop ∨ ss.goroutine = .ended := by
      simpa only [SmuxSession.deleted, Bool.or_eq_true, decide_eq_true_eq] using hdeleted
    rcases hgone with hstop | hended
    · exact Or.inr (Or.inr ⟨ss, hat, hstop⟩)
    · exact Or.inr (Or.inl (hinv.ended n ss hat hended))

/--
**Every session that is registered before `Stop` is called is closed when `Stop` returns, or its own
goroutine has turned it off or is about to; and a session whose goroutine had ended before the call
is not closed.** This holds however the sessions, new calls of `startSmux` and `Stop` interleave,
with fewer than `2 ^ 64` calls of `startSmux`.
-/
theorem stop_reaches_registered {acts acts' : List ListenerStopAct} {s s' : ListenerStop}
    (hfew : (acts ++ acts').count .startSmux < 2 ^ 64) (hrun : run step init acts = some s)
    (hpc : s.stop = .notCalled) (hrun' : run step s acts' = some s') (hret : s'.stop = .returned)
    {n : Nat} {ss : SmuxSession} (hat : s.smux.sessions[n]? = some ss)
    (hcall : ss.call = .returned) :
    s'.StoppedAt n ∧ (ss.goroutine = .ended → n ∉ s'.closed) := by
  obtain ⟨hinv, hroom⟩ := inv_run inv_init (by simpa [Room, init, SmuxRun.init] using hfew) hrun
  -- what is registered at the time; `Stop` accounts for it from its call on
  have hstart : Reaches (fun m => ∃ ss, s.smux.sessions[m]? = some ss ∧ ss.call = .returned) s := by
    refine ⟨fun _ hm => hm, fun m e _ _ _ => ?_⟩
    rw [hpc]
    trivial
  obtain ⟨hreaches, hinv'⟩ := reaches_run hstart hinv hroom hrun'
  refine ⟨hreaches.stoppedAt hinv' hret ⟨ss, hat, hcall⟩, fun hended => ?_⟩
  have hfirst : s.OwnFirst n := ⟨hinv.ended n ss hat hended, by rw [hinv.early hpc]; simp⟩
  exact (ownFirst_run hfirst hrun').2

/-- Three sessions are registered, and the goroutine of the third one ends. -/
def threeRegistered : List ListenerStopAct :=
  [.startSmux, .session 0 (.newSmux true), .session 0 .goAndStop, .session 0 .store, .startSmux,
    .session 1 (.newSmux true), .session 1 .goAndStop, .session 1 .store, .startSmux,
    .session 2 (.newSmux true), .session 2 .goAndStop, .session 2 .store, .session 2 .startReturns,
    .session 2 .delete, .session 2 .stop]

/-- `Stop` runs through, and the second session comes to its end by itself meanwhile. -/
def stopBeside : List ListenerStopAct :=
  [.callStop, .session 1 .startReturns, .session 1 .delete, .visit 1 0, .stopNext, .stopSession 0,
    .stopNext, .stopNext]

theorem stop_reaches_three_sessions :
    ∃ s s', run step init threeRegistered = some s ∧ run step s stopBeside = some s' ∧
      s'.stop = .returned ∧ s'.closed = [0] ∧ s'.StoppedAt 0 ∧ s'.StoppedAt 1 ∧ s'.StoppedAt 2 ∧
      2 ∉ s'.closed := by
  have hfew : (threeRegistered ++ stopBeside).count .startSmux < 2 ^ 64 := by decide
  have hzero := stop_reaches_registered (n := 0) hfew rfl rfl rfl rfl rfl rfl
  have hone := stop_reaches_registered (n := 1) hfew rfl rfl rfl rfl rfl rfl
  have htwo := stop_reaches_registered (n := 2) hfew rfl rfl rfl rfl rfl rfl
  exact ⟨_, _, rfl, rfl, rfl, rfl, hzero.1, hone.1, htwo.1, htwo.2 rfl⟩

/-- A session that is stored after the call of `Range` runs on after `Stop` has returned. -/
example :
    (run step init
        [.startSmux, .session 0 (.newSmux true), .session 0 .goAndStop, .callStop, .stopNext,
          .stopNext, .stopNext, .session 0 .store]).map
        (fun s => (s.stop, s.turnedOff, s.closed, s.smux.sessions)) =
      some (.returned, [], [], [{ id := 1, call := .returned, goroutine := .start }]) := by
  decide +kernel

end ListenerStop

end FabricaNet.Kcp
