import Mathlib.Logic.Function.Basic
import FabricaNet.Go.Chan
import FabricaNet.Internal.Listener
import FabricaNet.Lib.Run
import FabricaNet.Xnet

/-!
# The WebSocket listener

`websocket/server/listener.go`, as steps of the goroutines that use one listener: a handler for each
request, any number of calls of `Accept`, `server.Serve` and the calls of `Stop`. There are two of
these. `BaseServer.Stop` calls it, once, and so does the callback of `GoAndStop` when `Serve` has
returned.

`Stop` begins with `close(l.connChan)` and has no guard. `Shutdown` makes `Serve` return, so the two
calls belong to one shutdown. An `Accept` that finds the channel closed and empty returns the zero
`ConnCarrier` with a nil error (`eachState_shutdownSafe_iff`).

## What is left open

`Upgrade` may fail, and a request may come to its handler at any time: `Shutdown` gives up when its
context ends, and does not know of the connections that `Upgrade` has taken over. `Serve` may return
at any time. What `Shutdown` and `Close` of the `net.Listener` return is part of the action.
-/

namespace FabricaNet.WebSocket

open Go Lib Xnet Internal

/-- Where `handleWebSocket` is, after `Upgrade`. -/
inductive HandlerPc where
  | select
  /-- the carrier was sent -/
  | sent
  /-- the case `default` -/
  | dropped
  /-- the send was on a closed channel -/
  | panicked
deriving DecidableEq, Repr

/-- An upgraded connection, and its handler. -/
structure WsConn where
  handler : HandlerPc
  /-- the listener has called `Close` on it -/
  closed : Bool
deriving DecidableEq, Repr

/-- What `Upgrade` returns. -/
def WsConn.upgraded : WsConn := { handler := .select, closed := false }

/-- Where `Start` and `server.Serve` are. -/
inductive ServePc where
  | notStarted
  /-- `net.Listen` returned an error -/
  | listenFailed
  | serving
  | returned
deriving DecidableEq, Repr

/-- The places that call `Stop`. -/
inductive StopPlace where
  | baseServer
  | callback
deriving DecidableEq, Repr

/-- Where a call of `Stop` is. -/
inductive ListenerStopPc where
  | notCalled
  /-- `l.server.Shutdown(ctx)` -/
  | shutdown
  /-- `l.listener.Close()` -/
  | closeListener
  | returned (err : Option Err)
  /-- the channel was closed before -/
  | panicked
deriving DecidableEq, Repr

/-- A listener and the goroutines that use it. Connections are given by their position. -/
structure ListenerRun where
  serve : ServePc
  connIDGen : ConnIDGenerator
  connChan : Chan ConnCarrier
  /-- the connections that `Upgrade` has returned -/
  conns : List WsConn
  /-- every carrier that was sent on `connChan`, in order -/
  enqueued : List ConnCarrier
  /-- the calls of `Accept` that have not returned -/
  accepting : Nat
  /-- what `Accept` has returned, in order -/
  accepted : List (Except Err ConnCarrier)
  stops : StopPlace → ListenerStopPc

inductive ListenerAct where
  /-- `Start`; `ok` when `net.Listen` returns no error -/
  | start (ok : Bool)
  | serveReturns
  /-- `Upgrade` returns a connection or an error -/
  | upgrade (ok : Bool)
  /-- the `select` of `handleWebSocket` -/
  | select (i : Nat)
  /-- a call of `Accept` -/
  | accept
  /-- `Accept` takes the case `<-ctx.Done()` -/
  | acceptCtxDone (err : Err)
  /-- `Accept` receives from `connChan` -/
  | receive
  /-- a call of `Stop`, up to `close(l.connChan)` -/
  | stop (place : StopPlace)
  /-- the next part of `Stop`; `err` is what it returns -/
  | stopStep (place : StopPlace) (err : Option Err)

/-- Actions without the channel and the calls of `Stop`. -/
def ListenerAct.quiet : ListenerAct → Bool
  | .start _ | .serveReturns | .upgrade _ | .accept | .acceptCtxDone _ => true
  | .select _ | .receive | .stop _ | .stopStep _ _ => false

namespace ListenerRun

/-- `newListener`. -/
def init : ListenerRun where
  serve := .notStarted
  connIDGen := newConnIDGenerator NetType.webSocket.toInt64
  connChan := Chan.make 1024
  conns := []
  enqueued := []
  accepting := 0
  accepted := []
  stops := fun _ => .notCalled

/-- The carriers that `Accept` has returned with a nil error. -/
def delivered (s : ListenerRun) : List ConnCarrier := s.accepted.filterMap Except.toOption

/-- `Upgrade` returns a connection. -/
def addConn (s : ListenerRun) : ListenerRun := { s with conns := s.conns ++ [.upgraded] }

/-- The handler of a connection goes on. -/
def setHandler (s : ListenerRun) (i : Nat) (c : WsConn) (pc : HandlerPc) : ListenerRun :=
  { s with conns := s.conns.set i { c with handler := pc } }

/-- The `select` of `handleWebSocket`. The carrier is built whichever case is taken. -/
def select (s : ListenerRun) (i : Nat) (c : WsConn) : ListenerRun :=
  let carrier := newConnCarrier s.connIDGen.next.1 i i
  let s' := { s with connIDGen := s.connIDGen.next.2 }
  match s.connChan.send carrier with
  | .done ch => { s'.setHandler i c .sent with
      connChan := ch
      enqueued := s.enqueued ++ [carrier] }
  | .blocked => s'.setHandler i c .dropped
  | .panic => s'.setHandler i c .panicked

/-- A call of `Accept` returns. -/
def acceptReturns (s : ListenerRun) (r : Except Err ConnCarrier) : ListenerRun :=
  { s with accepting := s.accepting - 1, accepted := s.accepted ++ [r] }

/-- A call of `Stop` goes on. -/
def setStop (s : ListenerRun) (place : StopPlace) (pc : ListenerStopPc) : ListenerRun :=
  { s with stops := Function.update s.stops place pc }

/-- The call of `Stop` is there: the callback runs when `Serve` has returned. -/
def canStop (s : ListenerRun) (place : StopPlace) : Bool :=
  s.stops place = .notCalled && (place = .baseServer || s.serve = .returned)

/-- Where `Stop` is after its next part. -/
def afterStop (s : ListenerRun) (place : StopPlace) (err : Option Err) : Option ListenerStopPc :=
  match s.stops place with
  | .shutdown =>
    -- `Start` sets `l.server` first
    if s.serve = .notStarted then some .closeListener
    else match err with
      | none => some .closeListener
      | some e => some (.returned (some e))
  | .closeListener =>
    if s.serve = .notStarted ∨ s.serve = .listenFailed then some (.returned none)
    else some (.returned err)
  | _ => none

def step (s : ListenerRun) : ListenerAct → Option ListenerRun
  | .start ok =>
    if s.serve = .notStarted then
      some { s with serve := if ok then .serving else .listenFailed }
    else none
  | .serveReturns => if s.serve = .serving then some { s with serve := .returned } else none
  | .upgrade ok =>
    if s.serve = .serving ∨ s.serve = .returned then
      some (if ok then s.addConn else s)
    else none
  | .select i =>
    match s.conns[i]? with
    | none => none
    | some c => if c.handler = .select then some (s.select i c) else none
  | .accept => some { s with accepting := s.accepting + 1 }
  | .acceptCtxDone err =>
    if 0 < s.accepting then some (s.acceptReturns (.error err)) else none
  | .receive =>
    if 0 < s.accepting then
      match s.connChan.recv with
      | .blocked => none
      | .ended => some (s.acceptReturns (.ok ConnCarrier.zero))
      | .got x ch => some { s.acceptReturns (.ok x) with connChan := ch }
    else none
  | .stop place =>
    if s.canStop place then
      if s.connChan.closed then some (s.setStop place .panicked)
      else some { s.setStop place .shutdown with connChan := s.connChan.close }
    else none
  | .stopStep place err => (s.afterStop place err).map (s.setStop place)

/-! ## What a step does -/

/-- A step that changes neither the connections and their carriers nor the calls of `Stop`. -/
structure Aside (s s' : ListenerRun) : Prop where
  connChan_eq : s'.connChan = s.connChan
  conns_eq : s'.conns = s.conns
  enqueued_eq : s'.enqueued = s.enqueued
  delivered_eq : s'.delivered = s.delivered
  stops_eq : s'.stops = s.stops

/-- Every way in which an action changes the listener. -/
inductive Effect (s : ListenerRun) : ListenerAct → ListenerRun → Prop
  | aside {a : ListenerAct} {s' : ListenerRun} (same : Aside s s') (act : a.quiet = true) :
      Effect s a s'
  | upgraded : Effect s (.upgrade true) s.addConn
  | sent {i : Nat} {c : WsConn} {id : UInt64} {gen : ConnIDGenerator}
      (at_ : s.conns[i]? = some c) (pc : c.handler = .select) (opened : s.connChan.closed = false)
      (room : s.connChan.buf.length < s.connChan.cap) :
      Effect s (.select i) { s with
        connIDGen := gen
        conns := s.conns.set i { c with handler := .sent }
        connChan := { s.connChan with buf := s.connChan.buf ++ [newConnCarrier id i i] }
        enqueued := s.enqueued ++ [newConnCarrier id i i] }
  | lost {i : Nat} {c : WsConn} {gen : ConnIDGenerator} {pc : HandlerPc}
      (at_ : s.conns[i]? = some c) (was : c.handler = .select)
      (why : s.connChan.closed = true ∧ pc = .panicked ∨
        s.connChan.closed = false ∧ s.connChan.cap ≤ s.connChan.buf.length ∧ pc = .dropped) :
      Effect s (.select i) { s with
        connIDGen := gen
        conns := s.conns.set i { c with handler := pc } }
  | received {x : ConnCarrier} {ch : Chan ConnCarrier} (buf_eq : s.connChan.buf = x :: ch.buf)
      (closed_eq : ch.closed = s.connChan.closed) :
      Effect s .receive { s.acceptReturns (.ok x) with connChan := ch }
  | ended (closed : s.connChan.closed = true) (empty : s.connChan.buf = []) :
      Effect s .receive (s.acceptReturns (.ok ConnCarrier.zero))
  | close {place : StopPlace} (opened : s.connChan.closed = false) :
      Effect s (.stop place) { s.setStop place .shutdown with connChan := s.connChan.close }
  | closeAgain {place : StopPlace} (closed : s.connChan.closed = true) :
      Effect s (.stop place) (s.setStop place .panicked)
  | stopNext {place : StopPlace} {err : Option Err} {pc : ListenerStopPc}
      (next : s.afterStop place err = some pc) : Effect s (.stopStep place err) (s.setStop place pc)

variable {s s' : ListenerRun} {a : ListenerAct}

theorem stops_setStop {place : StopPlace} {pc : ListenerStopPc} (place' : StopPlace) :
    (s.setStop place pc).stops place' = if place' = place then pc else s.stops place' :=
  Function.update_apply ..

theorem select_effect {i : Nat} {c : WsConn} (hat : s.conns[i]? = some c)
    (hpc : c.handler = .select) : Effect s (.select i) (s.select i c) := by
  simp only [select]
  split
  · next ch hsend =>
    obtain ⟨hopen, rfl⟩ := Chan.send_eq_done hsend
    have hroom := Chan.length_of_send hsend
    rw [List.length_append] at hroom
    exact .sent hat hpc hopen hroom
  · next hsend =>
    obtain ⟨hopen, hfull⟩ := Chan.send_eq_blocked hsend
    exact .lost hat hpc (Or.inr ⟨hopen, hfull, rfl⟩)
  · next hsend => exact .lost hat hpc (Or.inl ⟨Chan.send_eq_panic hsend, rfl⟩)

theorem step_effect (h : s.step a = some s') : Effect s a s' := by
  cases a with
  | start ok =>
    obtain ⟨-, ⟨⟩⟩ := Option.ite_none_right_eq_some.mp h
    exact .aside ⟨rfl, rfl, rfl, rfl, rfl⟩ rfl
  | serveReturns =>
    obtain ⟨-, ⟨⟩⟩ := Option.ite_none_right_eq_some.mp h
    exact .aside ⟨rfl, rfl, rfl, rfl, rfl⟩ rfl
  | upgrade ok =>
    obtain ⟨-, ⟨⟩⟩ := Option.ite_none_right_eq_some.mp h
    cases ok with
    | false => exact .aside ⟨rfl, rfl, rfl, rfl, rfl⟩ rfl
    | true => exact .upgraded
  | select i =>
    simp only [step] at h
    split at h
    · cases h
    · next c hat =>
      obtain ⟨hpc, ⟨⟩⟩ := Option.ite_none_right_eq_some.mp h
      exact select_effect hat hpc
  | accept =>
    cases h
    exact .aside ⟨rfl, rfl, rfl, rfl, rfl⟩ rfl
  | acceptCtxDone err =>
    obtain ⟨-, ⟨⟩⟩ := Option.ite_none_right_eq_some.mp h
    have hdelivered : (s.acceptReturns (.error err)).delivered = s.delivered := by
      simp [delivered, acceptReturns, Except.toOption]
    exact .aside ⟨rfl, rfl, rfl, hdelivered, rfl⟩ rfl
  | receive =>
    obtain ⟨-, h⟩ := Option.ite_none_right_eq_some.mp h
    split at h
    · cases h
    · next hrecv =>
      cases h
      obtain ⟨hclosed, hempty⟩ := Chan.recv_eq_ended hrecv
      exact .ended hclosed hempty
    · next x ch hrecv =>
      cases h
      obtain ⟨hbuf, -, hclosed⟩ := Chan.recv_eq_got hrecv
      exact .received hbuf hclosed
  | stop place =>
    obtain ⟨-, h⟩ := Option.ite_none_right_eq_some.mp h
    split at h
    · next hclosed =>
      cases h
      exact .closeAgain hclosed
    · next hopen =>
      cases h
      exact .close (Bool.eq_false_iff.mpr hopen)
  | stopStep place err =>
    obtain ⟨pc, hnext, ⟨⟩⟩ := Option.map_eq_some_iff.mp h
    exact .stopNext hnext

/-! ## Where a connection is -/

/-- The carrier is the one of the connection. -/
def carries (i : Nat) (x : ConnCarrier) : Bool := x.conn = some i

/-- In the hands of its handler, or closed. -/
def held (c : WsConn) : Nat := (if c.handler = .select then 1 else 0) + if c.closed then 1 else 0

/-- How often the connection is held, queued and delivered. -/
def places (s : ListenerRun) (i : Nat) : Nat :=
  (s.conns[i]?.elim 0 held) + s.connChan.buf.countP (carries i) + s.delivered.countP (carries i)

theorem carries_newConnCarrier (i j : Nat) (id : UInt64) :
    carries j (newConnCarrier id i i) = decide (j = i) := by
  simp [carries, newConnCarrier, eq_comm]

theorem delivered_acceptReturns_ok (x : ConnCarrier) :
    (s.acceptReturns (.ok x)).delivered = s.delivered ++ [x] := by
  simp [delivered, acceptReturns, Except.toOption]

theorem elim_held_set {i : Nat} {c : WsConn} (hat : s.conns[i]? = some c) (c' : WsConn) (j : Nat) :
    (s.conns.set i c')[j]?.elim 0 held = if j = i then held c' else s.conns[j]?.elim 0 held := by
  have hi : i < s.conns.length := (List.getElem?_eq_some_iff.mp hat).1
  split
  · next hj => rw [hj, List.getElem?_set_self hi]; rfl
  · next hj => rw [List.getElem?_set_ne (Ne.symm hj)]

theorem elim_held_append (c : WsConn) (j : Nat) :
    (s.conns ++ [c])[j]?.elim 0 held =
      s.conns[j]?.elim 0 held + if j = s.conns.length then held c else 0 := by
  rcases Nat.lt_trichotomy j s.conns.length with hj | rfl | hj
  · rw [List.getElem?_append_left hj, if_neg (by omega), Nat.add_zero]
  · rw [List.getElem?_concat_length, List.getElem?_eq_none (Nat.le_refl _), if_pos rfl]
    simp
  · have hlen : (s.conns ++ [c]).length ≤ j := by
      rw [List.length_append]
      exact hj
    rw [List.getElem?_eq_none hlen, List.getElem?_eq_none (by omega), if_neg (by omega)]
    rfl

/-- A handler that comes to its `select` finds the channel open, and room in it. -/
def FindsRoom (s : ListenerRun) (a : ListenerAct) : Prop :=
  ∀ i, a = .select i → s.connChan.closed = false ∧ s.connChan.buf.length < s.connChan.cap

/-- How the places of the connections change in a step. -/
inductive Moves (s s' : ListenerRun) : ListenerAct → Prop
  | keep {a : ListenerAct} (room : s.FindsRoom a) (len : s'.conns.length = s.conns.length)
      (frame : ∀ j, s'.places j = s.places j) : Moves s s' a
  /-- a connection is new, and in the hands of its handler -/
  | fresh (len : s'.conns.length = s.conns.length + 1)
      (frame : ∀ j, s'.places j = s.places j + if j = s.conns.length then 1 else 0) :
      Moves s s' (.upgrade true)
  /-- a handler ends, and leaves its connection nowhere -/
  | lose {i : Nat} (full : ¬s.FindsRoom (.select i)) (len : s'.conns.length = s.conns.length)
      (lt : i < s.conns.length)
      (frame : ∀ j, (s'.places j + if j = i then 1 else 0) = s.places j) : Moves s s' (.select i)

theorem Effect.moves (h : Effect s a s') : Moves s s' a := by
  cases h with
  | aside same act =>
    refine .keep (fun i ha => ?_) (by rw [same.conns_eq]) fun j => ?_
    · rw [ha] at act
      cases act
    · rw [places, places, same.conns_eq, same.connChan_eq, same.delivered_eq]
  | upgraded =>
    refine .fresh List.length_append fun j => ?_
    have hheld := elim_held_append (s := s) .upgraded j
    rw [show held .upgraded = 1 from rfl] at hheld
    unfold places addConn
    rw [hheld]
    simp only [delivered]
    omega
  | @sent i c id gen hat pc opened room =>
    refine .keep (fun _ _ => ⟨opened, room⟩) List.length_set fun j => ?_
    have hheld := elim_held_set hat { c with handler := .sent } j
    unfold places
    rw [hheld, List.countP_append, List.countP_singleton, carries_newConnCarrier]
    simp only [delivered, decide_eq_true_eq]
    split
    · next hj => simp [hj, hat, held, pc]; omega
    · rfl
  | @lost i c gen pc hat was why =>
    refine .lose (fun hroom => ?_) List.length_set (List.getElem?_eq_some_iff.mp hat).1 fun j => ?_
    · obtain ⟨hopen, hlt⟩ := hroom i rfl
      rcases why with ⟨hclosed, -⟩ | ⟨-, hfull, -⟩
      · rw [hopen] at hclosed
        cases hclosed
      · omega
    · have hpc : pc ≠ .select := by
        rcases why with ⟨-, rfl⟩ | ⟨-, -, rfl⟩ <;> decide
      have hheld := elim_held_set hat { c with handler := pc } j
      unfold places
      rw [hheld]
      simp only [delivered]
      split
      · next hj => simp [hj, hat, held, was, hpc]; omega
      · rfl
  | @received x ch buf_eq closed_eq =>
    refine .keep nofun rfl fun j => ?_
    show s.conns[j]?.elim 0 held + ch.buf.countP (carries j) +
      (s.acceptReturns (.ok x)).delivered.countP (carries j) = s.places j
    rw [places, delivered_acceptReturns_ok, buf_eq, List.countP_append, List.countP_singleton,
      List.countP_cons]
    omega
  | ended closed empty =>
    refine .keep nofun rfl fun j => ?_
    rw [places, places, delivered_acceptReturns_ok, List.countP_append, List.countP_singleton]
    simp [acceptReturns, carries, ConnCarrier.zero]
  | close opened | closeAgain closed | stopNext next => exact .keep nofun rfl fun j => rfl

/-! ## What holds in every run -/

/-- A call that goes on was made, and does not panic. -/
theorem afterStop_cases {place : StopPlace} {err : Option Err} {pc : ListenerStopPc}
    (h : s.afterStop place err = some pc) :
    s.stops place ≠ .notCalled ∧ pc ≠ .notCalled ∧ pc ≠ .panicked := by
  unfold afterStop at h
  split at h
  · next hpc =>
    rw [hpc]
    split at h
    · cases h
      exact ⟨nofun, nofun, nofun⟩
    · split at h <;> (cases h; exact ⟨nofun, nofun, nofun⟩)
  · next hpc =>
    rw [hpc]
    split at h <;> (cases h; exact ⟨nofun, nofun, nofun⟩)
  · cases h

/-- What the steps keep, whatever they find. -/
structure Sound (s : ListenerRun) : Prop where
  /-- a connection is in one place at most -/
  places_le : ∀ i, s.places i ≤ if i < s.conns.length then 1 else 0
  /-- `Accept` returns what was sent, in order, and zero carriers in between -/
  fifo : s.enqueued = s.delivered.filter (fun x => x.conn.isSome) ++ s.connChan.buf
  carried : ∀ x ∈ s.enqueued, x.conn.isSome = true
  closed : ∀ place, s.stops place ≠ .notCalled → s.connChan.closed = true

theorem sound_init : Sound init where
  places_le := fun i => Nat.le_of_eq (by simp [places, init, delivered, Chan.make])
  fifo := rfl
  carried := nofun
  closed := fun _ h => absurd rfl h

/-- What `Accept` receives has a connection. -/
theorem Sound.conn_of_buf (h : Sound s) {x : ConnCarrier} {buf : List ConnCarrier}
    (hbuf : s.connChan.buf = x :: buf) : x.conn.isSome = true := by
  refine h.carried x ?_
  rw [h.fifo, hbuf]
  exact List.mem_append_right _ (List.mem_cons_self ..)

theorem Moves.places_le (hm : Moves s s' a)
    (h : ∀ i, s.places i ≤ if i < s.conns.length then 1 else 0) (i : Nat) :
    s'.places i ≤ if i < s'.conns.length then 1 else 0 := by
  have hi := h i
  cases hm with
  | keep room len frame =>
    rw [frame, len]
    exact hi
  | fresh len frame =>
    rw [frame, len]
    split at hi <;> split <;> split <;> omega
  | lose full len lt frame =>
    have hframe := frame i
    rw [len]
    omega

theorem Sound.step (h : Sound s) (hs : s.step a = some s') : Sound s' := by
  have heff := step_effect hs
  have hplaces := heff.moves.places_le h.places_le
  cases heff with
  | aside same act =>
    refine ⟨hplaces, ?_, ?_, ?_⟩
    · rw [same.enqueued_eq, same.delivered_eq, same.connChan_eq]
      exact h.fifo
    · rw [same.enqueued_eq]
      exact h.carried
    · rw [same.stops_eq, same.connChan_eq]
      exact h.closed
  | upgraded => exact ⟨hplaces, h.fifo, h.carried, h.closed⟩
  | sent hat pc opened room =>
    refine ⟨hplaces, ?_, ?_, h.closed⟩
    · show s.enqueued ++ _ = _ ++ (s.connChan.buf ++ _)
      rw [h.fifo, List.append_assoc]
      rfl
    · intro x hx
      rcases List.mem_append.mp hx with hx | hx
      · exact h.carried x hx
      · rw [List.mem_singleton.mp hx]
        rfl
  | lost hat was why => exact ⟨hplaces, h.fifo, h.carried, h.closed⟩
  | @received x ch buf_eq closed_eq =>
    have hx : x.conn.isSome = true := h.conn_of_buf buf_eq
    refine ⟨hplaces, ?_, h.carried, fun place hp => closed_eq.trans (h.closed place hp)⟩
    show s.enqueued = (s.acceptReturns (.ok x)).delivered.filter _ ++ ch.buf
    rw [delivered_acceptReturns_ok, List.filter_append, h.fifo, buf_eq, List.append_assoc]
    simp [hx]
  | ended closed empty =>
    refine ⟨hplaces, ?_, h.carried, h.closed⟩
    show s.enqueued = (s.acceptReturns _).delivered.filter _ ++ s.connChan.buf
    rw [delivered_acceptReturns_ok, List.filter_append, h.fifo]
    simp [ConnCarrier.zero]
  | close opened => exact ⟨hplaces, h.fifo, h.carried, fun _ _ => rfl⟩
  | closeAgain closed => exact ⟨hplaces, h.fifo, h.carried, fun _ _ => closed⟩
  | stopNext next =>
    have hclosed := h.closed _ (afterStop_cases next).1
    exact ⟨hplaces, h.fifo, h.carried, fun _ _ => hclosed⟩

/-! ## Shutdown -/

/--
Nothing was sent on the closed channel and it was not closed twice; what `Accept` has returned with
a nil error was sent by a handler, and was returned once.
-/
structure ShutdownSafe (s : ListenerRun) : Prop where
  handler : ∀ c ∈ s.conns, c.handler ≠ .panicked
  stop : ∀ place, s.stops place ≠ .panicked
  enqueued : ∀ x ∈ s.delivered, x ∈ s.enqueued
  once : s.delivered.Nodup

/--
Once the channel is closed, no `Stop` closes it, no handler comes to its `select` and no `Accept`
receives from it when it is empty.
-/
def LeavesClosedAlone (s : ListenerRun) (a : ListenerAct) : Prop :=
  s.connChan.closed = true →
    (∀ place, a ≠ .stop place) ∧ (∀ i, a ≠ .select i) ∧ (a = .receive → s.connChan.buf ≠ [])

/-- Of the deliveries it is enough that each has a connection. -/
theorem Sound.deliveries_iff (h : Sound s) :
    (∀ x ∈ s.delivered, x ∈ s.enqueued) ∧ s.delivered.Nodup ↔
      ∀ x ∈ s.delivered, x.conn.isSome = true := by
  constructor
  · exact fun hd x hx => h.carried x (hd.1 x hx)
  · intro hsome
    refine ⟨fun x hx => ?_, List.nodup_iff_count.mpr fun x => ?_⟩
    · rw [h.fifo, List.filter_eq_self.mpr hsome]
      exact List.mem_append_left _ hx
    · by_cases hx : x ∈ s.delivered
      · -- a carrier that comes twice would be a connection in two places
        obtain ⟨i, hi⟩ := Option.isSome_iff_exists.mp (hsome x hx)
        have hcount : s.delivered.count x ≤ s.delivered.countP (carries i) := by
          rw [List.count_eq_countP]
          refine List.countP_mono_left fun y _ hy => ?_
          rw [eq_of_beq hy]
          simpa [carries] using hi
        have hplaces : s.places i ≤ 1 := by
          have := h.places_le i
          split at this <;> omega
        unfold places at hplaces
        omega
      · rw [List.count_eq_zero_of_not_mem hx]
        exact Nat.zero_le 1

theorem Sound.shutdownSafe_iff (h : Sound s) :
    s.ShutdownSafe ↔ (∀ c ∈ s.conns, c.handler ≠ .panicked) ∧
      (∀ place, s.stops place ≠ .panicked) ∧ ∀ x ∈ s.delivered, x.conn.isSome = true := by
  constructor
  · exact fun hs => ⟨hs.handler, hs.stop, h.deliveries_iff.mp ⟨hs.enqueued, hs.once⟩⟩
  · rintro ⟨hhandler, hstop, hsome⟩
    obtain ⟨henq, honce⟩ := h.deliveries_iff.mpr hsome
    exact ⟨hhandler, hstop, henq, honce⟩

theorem leavesClosedAlone_of_quiet (h : a.quiet = true) : s.LeavesClosedAlone a := by
  cases a with
  | start | serveReturns | upgrade | accept | acceptCtxDone => exact fun _ => ⟨nofun, nofun, nofun⟩
  | select | receive | stop | stopStep => cases h

theorem leavesClosedAlone_of_open (h : s.connChan.closed = false) : s.LeavesClosedAlone a := by
  intro hc
  rw [h] at hc
  cases hc

/-- **One step: the listener stays safe exactly under the condition.** -/
theorem ShutdownSafe.step_iff (hsafe : s.ShutdownSafe) (h : Sound s) (hs : s.step a = some s') :
    s'.ShutdownSafe ↔ s.LeavesClosedAlone a := by
  rw [(h.step hs).shutdownSafe_iff]
  obtain ⟨hhandler, hstop, hsome⟩ := h.shutdownSafe_iff.mp hsafe
  have hset : ∀ {i : Nat} {c' : WsConn}, c'.handler ≠ .panicked → ∀ c ∈ s.conns.set i c',
      c.handler ≠ .panicked := by
    intro i c' hc' c hc
    rcases List.mem_or_eq_of_mem_set hc with hc | rfl
    · exact hhandler c hc
    · exact hc'
  have hupdate : ∀ {place : StopPlace} {pc : ListenerStopPc}, pc ≠ .panicked → ∀ place',
      (s.setStop place pc).stops place' ≠ .panicked := by
    intro place pc hpc place'
    rw [stops_setStop]
    split
    · exact hpc
    · exact hstop place'
  cases step_effect hs with
  | aside same act =>
    refine iff_of_true ?_ (leavesClosedAlone_of_quiet act)
    rw [same.conns_eq, same.stops_eq, same.delivered_eq]
    exact ⟨hhandler, hstop, hsome⟩
  | upgraded =>
    refine iff_of_true ⟨fun c hc => ?_, hstop, hsome⟩ (leavesClosedAlone_of_quiet rfl)
    rcases List.mem_append.mp hc with hc | hc
    · exact hhandler c hc
    · rw [List.mem_singleton.mp hc]
      decide
  | sent hat pc opened room =>
    exact iff_of_true ⟨hset nofun, hstop, hsome⟩ (leavesClosedAlone_of_open opened)
  | @lost i c gen pc hat was why =>
    rcases why with ⟨hclosed, rfl⟩ | ⟨hopen, -, rfl⟩
    · refine iff_of_false (fun h' => ?_) fun hl => (hl hclosed).2.1 i rfl
      have hi : i < s.conns.length := (List.getElem?_eq_some_iff.mp hat).1
      exact h'.1 _ (List.mem_set hi _) rfl
    · exact iff_of_true ⟨hset nofun, hstop, hsome⟩ (leavesClosedAlone_of_open hopen)
  | @received x ch buf_eq closed_eq =>
    have hx : x.conn.isSome = true := h.conn_of_buf buf_eq
    refine iff_of_true ⟨hhandler, hstop, ?_⟩ fun _ => ⟨nofun, nofun, fun _ => by rw [buf_eq]; nofun⟩
    show ∀ y ∈ (s.acceptReturns (.ok x)).delivered, _
    rw [delivered_acceptReturns_ok]
    intro y hy
    rcases List.mem_append.mp hy with hy | hy
    · exact hsome y hy
    · rw [List.mem_singleton.mp hy]
      exact hx
  | ended closed empty =>
    refine iff_of_false (fun h' => ?_) fun hl => (hl closed).2.2 rfl empty
    have hzero := h'.2.2 ConnCarrier.zero
    rw [delivered_acceptReturns_ok] at hzero
    cases hzero (List.mem_append_right _ (List.mem_singleton.mpr rfl))
  | close opened =>
    exact iff_of_true ⟨hhandler, hupdate nofun, hsome⟩ (leavesClosedAlone_of_open opened)
  | @closeAgain place closed =>
    refine iff_of_false (fun h' => ?_) fun hl => (hl closed).1 place rfl
    exact h'.2.1 place (Function.update_self ..)
  | stopNext next =>
    refine iff_of_true ⟨hhandler, hupdate (afterStop_cases next).2.2, hsome⟩ fun _ => ?_
    exact ⟨nofun, nofun, nofun⟩

/--
**The shutdown is safe exactly in the runs that leave the channel alone once it is closed: no second
`close`, no handler at its `select`, no `Accept` on the empty channel.**
-/
theorem eachState_shutdownSafe_iff (acts : List ListenerAct) :
    EachState step ShutdownSafe init acts ↔
      EachStep step (fun s a _ => s.LeavesClosedAlone a) init acts := by
  have hinit : ShutdownSafe init := ⟨nofun, nofun, nofun, List.nodup_nil⟩
  refine eachState_iff_of_step (I := fun s _ => Sound s) ?_ ?_ sound_init hinit
  · exact fun s a s' _ h hs => h.step hs
  · exact fun s a s' _ h hsafe hs => hsafe.step_iff h hs

/--
One `BaseServer.Stop`: it closes the channel and calls `Shutdown`, `Serve` returns, and the callback
closes the channel again. An `Accept` in between returns a carrier without a connection.
-/
theorem stop_closes_twice :
    ((Lib.run step init [.start true, .stop .baseServer, .stopStep .baseServer none, .serveReturns,
          .stop .callback]).map fun s => s.stops .callback) = some .panicked ∧
      ((Lib.run step init [.start true, .accept, .stop .baseServer, .receive]).map
          ListenerRun.delivered) = some [ConnCarrier.zero] ∧
      ¬EachState step ShutdownSafe init [.start true, .stop .baseServer,
        .stopStep .baseServer none, .serveReturns, .stop .callback] := by
  refine ⟨rfl, rfl, fun h => ?_⟩
  exact (h.of_run rfl).stop .callback rfl

end ListenerRun

end FabricaNet.WebSocket
