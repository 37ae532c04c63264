import Mathlib.Data.List.AList
import Mathlib.Logic.Function.Basic
import FabricaNet.Lib.Run
import FabricaNet.Xnet

/-!
# The tunnels of a worker

`internal/tunnelmanager.go` with `Worker.Tunnel`, as steps of the goroutines that run them: any
number of calls of `Tunnel`, told apart by a number, and the one call of `stop` that `Worker.Stop`
makes. `tunnel` is one step, since nobody changes the map while it has the read lock;
`createTunnel` and `stop` hold the lock over several steps.

## What is left open

`TunnelType` and `create` are code of the service and return what they like. `stop` takes the groups
in any order and stops the tunnels of a group in any order; of `t.Stop` it is assumed that
`OnStopping` is true when it returns.

A tunnel may also end by itself: `run` returns when its loops have returned, and then calls `stop`.
The context that a tunnel runs in ends with the worker's `Run`. `scLoop` looks at it between two
calls of `SCHandle`, which is code of the service and gets no context. It returns when it returns.
-/

namespace FabricaNet.Internal

open Go Xnet Lib

/-- A tunnel, as far as its manager is concerned. -/
structure TunnelInfo where
  tp : Int32
  oid : Int64
  /-- what `OnStopping` returns -/
  stopping : Bool := false
  /-- `scLoop` has returned -/
  scExited : Bool := false
deriving DecidableEq, Repr

/-- The tunnels of one type, from their object id. Tunnels are given by their position. -/
abbrev TunnelGroup := AList fun _ : Int64 => Nat

/-- The type of `tunnelGroups`. -/
abbrev TunnelGroups := AList fun _ : Int32 => TunnelGroup

/-- Where a call of `Worker.Tunnel` is. -/
inductive TunnelPc where
  | idle
  /-- `tunnelManager.tunnel` is next -/
  | lookup (tp : Int32) (oid : Int64)
  /-- `createTunnel` is next, and waits for the lock -/
  | lock (tp : Int32) (oid : Int64)
  /-- in `create`, with the lock -/
  | creating (tp : Int32) (oid : Int64)
  /-- `tg[oid] = t` is next, with the lock -/
  | store (tp : Int32) (oid : Int64) (t : Nat)
  | returned (r : Except Err Nat)

/-- Who has the lock. -/
inductive LockHolder where
  | nobody
  /-- a call of `Tunnel`, in `createTunnel` -/
  | call (i : Nat)
  /-- `stop` -/
  | stop
deriving DecidableEq, Repr

/-- Where `tunnelManager.stop` is. -/
inductive TunnelsStopPc where
  | notCalled
  /-- with the lock; `pending` are the tunnels before their `wg.Done` -/
  | stopping (pending : List Nat)
  | returned
deriving DecidableEq, Repr

/-- The tunnel manager of a worker, and the goroutines that use it. -/
structure TunnelsRun where
  tunnelGroups : TunnelGroups
  /-- every tunnel that `create` has returned -/
  tunnels : List TunnelInfo
  calls : Nat → TunnelPc
  holder : LockHolder
  stop : TunnelsStopPc
  /-- the context of `Run` has ended -/
  ctxDone : Bool

inductive TunnelsAct where
  /-- the `i`-th call of `Tunnel`, up to the result of `TunnelType` -/
  | call (i : Nat) (tp : Except Err Int32) (oid : Int64)
  | lookup (i : Nat)
  /-- `createTunnel` gets the lock and looks again -/
  | lock (i : Nat)
  /-- `create` returns -/
  | create (i : Nat) (err : Option Err)
  | store (i : Nat)
  /-- `stop` gets the lock -/
  | stopLock
  /-- `stop` comes to the next group -/
  | stopGroup (tp : Int32)
  /-- a goroutine of `stop` comes to its `wg.Done` -/
  | stopTunnel (t : Nat)
  /-- `stop` returns -/
  | stopReturn
  /-- the context of `Run` ends -/
  | ctxEnd
  /-- `SCHandle` of a tunnel returns; `ok` when `scLoop` goes on unless its context has ended -/
  | scHandle (t : Nat) (ok : Bool)
  /-- `run` of a tunnel returns -/
  | runReturn (t : Nat)

namespace TunnelsRun

/-- What `newWorker` builds. -/
def init : TunnelsRun where
  tunnelGroups := ∅
  tunnels := []
  calls := fun _ => .idle
  holder := .nobody
  stop := .notCalled
  ctxDone := false

/-- `OnStopping` of a tunnel. -/
def onStopping (s : TunnelsRun) (t : Nat) : Bool :=
  (s.tunnels[t]?.map TunnelInfo.stopping).getD false

/-- The entry of `tunnelGroups`. -/
def registered (s : TunnelsRun) (tp : Int32) (oid : Int64) : Option Nat :=
  (s.tunnelGroups.lookup tp).bind fun tg => tg.lookup oid

/-- `tunnelManager.tunnel`. -/
def tunnel (s : TunnelsRun) (tp : Int32) (oid : Int64) : Option Nat :=
  match s.registered tp oid with
  | none => none
  | some t => if s.onStopping t then none else some t

/-- The manager with the state of one call replaced. -/
def setCall (s : TunnelsRun) (i : Nat) (pc : TunnelPc) : TunnelsRun :=
  { s with calls := Function.update s.calls i pc }

/-- The manager with one tunnel changed. -/
def modify (s : TunnelsRun) (t : Nat) (f : TunnelInfo → TunnelInfo) : TunnelsRun :=
  { s with tunnels := s.tunnels.modify t f }

/-- `create` returns a tunnel. -/
def addTunnel (s : TunnelsRun) (tp : Int32) (oid : Int64) : TunnelsRun :=
  let info : TunnelInfo := { tp := tp, oid := oid }
  { s with tunnels := s.tunnels ++ [info] }

/-- `createTunnel` makes a group for the type if there is none. -/
def withGroup (s : TunnelsRun) (tp : Int32) : TunnelsRun :=
  match s.tunnelGroups.lookup tp with
  | some _ => s
  | none => { s with tunnelGroups := s.tunnelGroups.insert tp ∅ }

/-- `tg[oid] = t`. -/
def setTunnel (s : TunnelsRun) (tp : Int32) (oid : Int64) (t : Nat) : TunnelsRun :=
  { s with tunnelGroups :=
      s.tunnelGroups.insert tp (((s.tunnelGroups.lookup tp).getD ∅).insert oid t) }

def step (s : TunnelsRun) : TunnelsAct → Option TunnelsRun
  | .call i tp oid =>
    match s.calls i, tp with
    | .idle, .ok tp => some (s.setCall i (.lookup tp oid))
    | .idle, .error e => some (s.setCall i (.returned (.error e)))
    | _, _ => none
  | .lookup i =>
    match s.calls i with
    | .lookup tp oid =>
      if s.holder = .nobody then
        match s.tunnel tp oid with
        | some t => some (s.setCall i (.returned (.ok t)))
        | none => some (s.setCall i (.lock tp oid))
      else none
    | _ => none
  | .lock i =>
    match s.calls i with
    | .lock tp oid =>
      if s.holder = .nobody then
        match s.tunnel tp oid with
        | some t => some ((s.withGroup tp).setCall i (.returned (.ok t)))
        | none => some ({ s.withGroup tp with holder := .call i }.setCall i (.creating tp oid))
      else none
    | _ => none
  | .create i err =>
    match s.calls i, err with
    | .creating _ _, some e => some ({ s with holder := .nobody }.setCall i (.returned (.error e)))
    | .creating tp oid, none =>
      some ((s.addTunnel tp oid).setCall i (.store tp oid s.tunnels.length))
    | _, _ => none
  | .store i =>
    match s.calls i with
    | .store tp oid t =>
      some ({ s.setTunnel tp oid t with holder := .nobody }.setCall i (.returned (.ok t)))
    | _ => none
  | .stopLock =>
    if s.stop = .notCalled ∧ s.holder = .nobody then
      some { s with stop := .stopping [], holder := .stop }
    else none
  | .stopGroup tp =>
    match s.stop, s.tunnelGroups.lookup tp with
    -- the `wg.Wait` for the group before has returned
    | .stopping [], some tg =>
      some { s with
        tunnelGroups := s.tunnelGroups.erase tp
        stop := .stopping (tg.entries.map Sigma.snd) }
    | _, _ => none
  | .stopTunnel t =>
    match s.stop with
    | .stopping pending =>
      if t ∈ pending then
        some ({ s with stop := .stopping (pending.erase t) }.modify t
          fun info => { info with stopping := true })
      else none
    | _ => none
  | .stopReturn =>
    if s.stop = .stopping [] ∧ s.tunnelGroups.entries = [] then
      some { s with stop := .returned, holder := .nobody }
    else none
  | .ctxEnd => some { s with ctxDone := true }
  | .scHandle t ok =>
    match s.tunnels[t]? with
    | none => none
    | some info =>
      if ok = true ∧ s.ctxDone = false ∧ info.stopping = false then some s
      else some (s.modify t fun info => { info with scExited := true })
  | .runReturn t =>
    match s.tunnels[t]? with
    | none => none
    | some info =>
      -- `eg.Wait` waits for `scLoop`
      if info.scExited then some (s.modify t fun info => { info with stopping := true }) else none

/-! ## What a step does -/

/-- Every way in which an action changes the manager. -/
inductive Effect (s : TunnelsRun) : TunnelsAct → TunnelsRun → Prop
  | began {i : Nat} {tp : Except Err Int32} {oid : Int64} (pc : TunnelPc)
      (calls : s.calls i = .idle) (next : ∀ tp oid, pc ≠ .creating tp oid)
      (next' : ∀ tp oid t, pc ≠ .store tp oid t) :
      Effect s (.call i tp oid) (s.setCall i pc)
  | looked {i : Nat} {tp : Int32} {oid : Int64} (pc : TunnelPc) (calls : s.calls i = .lookup tp oid)
      (next : ∀ tp oid, pc ≠ .creating tp oid) (next' : ∀ tp oid t, pc ≠ .store tp oid t) :
      Effect s (.lookup i) (s.setCall i pc)
  | found {i : Nat} {tp : Int32} {oid : Int64} (t : Nat) (calls : s.calls i = .lock tp oid) :
      Effect s (.lock i) ((s.withGroup tp).setCall i (.returned (.ok t)))
  | locked {i : Nat} {tp : Int32} {oid : Int64} (calls : s.calls i = .lock tp oid)
      (free : s.holder = .nobody) (missing : s.tunnel tp oid = none) :
      Effect s (.lock i) ({ s.withGroup tp with holder := .call i }.setCall i (.creating tp oid))
  | failed {i : Nat} {tp : Int32} {oid : Int64} (e : Err) (calls : s.calls i = .creating tp oid) :
      Effect s (.create i (some e)) ({ s with holder := .nobody }.setCall i (.returned (.error e)))
  | created {i : Nat} {tp : Int32} {oid : Int64} (calls : s.calls i = .creating tp oid) :
      Effect s (.create i none) ((s.addTunnel tp oid).setCall i (.store tp oid s.tunnels.length))
  | stored {i : Nat} {tp : Int32} {oid : Int64} {t : Nat} (calls : s.calls i = .store tp oid t) :
      Effect s (.store i)
        ({ s.setTunnel tp oid t with holder := .nobody }.setCall i (.returned (.ok t)))
  | stopLocked (stop : s.stop = .notCalled) (free : s.holder = .nobody) :
      Effect s .stopLock { s with stop := .stopping [], holder := .stop }
  | stopGroup {tp : Int32} {tg : TunnelGroup} (stop : s.stop = .stopping [])
      (group : s.tunnelGroups.lookup tp = some tg) :
      Effect s (.stopGroup tp) { s with
        tunnelGroups := s.tunnelGroups.erase tp
        stop := .stopping (tg.entries.map Sigma.snd) }
  | stopTunnel {t : Nat} {pending : List Nat} (stop : s.stop = .stopping pending) :
      Effect s (.stopTunnel t) ({ s with stop := .stopping (pending.erase t) }.modify t
        fun info => { info with stopping := true })
  | stopReturned (stop : s.stop = .stopping []) (empty : s.tunnelGroups.entries = []) :
      Effect s .stopReturn { s with stop := .returned, holder := .nobody }
  | ctxEnd : Effect s .ctxEnd { s with ctxDone := true }
  | scWent {t : Nat} : Effect s (.scHandle t true) s
  | scExited {t : Nat} {ok : Bool} :
      Effect s (.scHandle t ok) (s.modify t fun info => { info with scExited := true })
  | ended {t : Nat} {info : TunnelInfo} (tunnel : s.tunnels[t]? = some info)
      (exited : info.scExited = true) :
      Effect s (.runReturn t) (s.modify t fun info => { info with stopping := true })

theorem step_effect {s s' : TunnelsRun} {a : TunnelsAct} (h : s.step a = some s') :
    Effect s a s' := by
  cases a with
  | call i tp oid =>
    simp only [step] at h
    split at h
    · next hpc => cases h; exact .began _ hpc nofun nofun
    · next hpc => cases h; exact .began _ hpc nofun nofun
    · cases h
  | lookup i =>
    simp only [step] at h
    split at h
    · next tp oid hpc =>
      obtain ⟨-, h⟩ := Option.ite_none_right_eq_some.mp h
      split at h <;> cases h <;> exact .looked _ hpc nofun nofun
    · cases h
  | lock i =>
    simp only [step] at h
    split at h
    · next tp oid hpc =>
      obtain ⟨hfree, h⟩ := Option.ite_none_right_eq_some.mp h
      split at h
      · cases h; exact .found _ hpc
      · next hnone => cases h; exact .locked hpc hfree hnone
    · cases h
  | create i err =>
    simp only [step] at h
    split at h
    · next hpc => cases h; exact .failed _ hpc
    · next hpc => cases h; exact .created hpc
    · cases h
  | store i =>
    simp only [step] at h
    split at h
    · next hpc => cases h; exact .stored hpc
    · cases h
  | stopLock =>
    obtain ⟨⟨hstop, hfree⟩, ⟨⟩⟩ := Option.ite_none_right_eq_some.mp h
    exact .stopLocked hstop hfree
  | stopGroup tp =>
    simp only [step] at h
    split at h
    · next hstop hgroup => cases h; exact .stopGroup hstop hgroup
    · cases h
  | stopTunnel t =>
    simp only [step] at h
    split at h
    · next pending hstop =>
      obtain ⟨-, ⟨⟩⟩ := Option.ite_none_right_eq_some.mp h
      exact .stopTunnel hstop
    · cases h
  | stopReturn =>
    obtain ⟨⟨hstop, hempty⟩, ⟨⟩⟩ := Option.ite_none_right_eq_some.mp h
    exact .stopReturned hstop hempty
  | ctxEnd => cases h; exact .ctxEnd
  | scHandle t ok =>
    simp only [step] at h
    split at h
    · cases h
    · split at h
      · next hc =>
        cases h
        obtain ⟨rfl, -⟩ := hc
        exact .scWent
      · cases h; exact .scExited
  | runReturn t =>
    simp only [step] at h
    split at h
    · cases h
    · next info hinfo =>
      obtain ⟨hexited, ⟨⟩⟩ := Option.ite_none_right_eq_some.mp h
      exact .ended hinfo hexited

end TunnelsRun

end FabricaNet.Internal
