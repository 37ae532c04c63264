import Mathlib.Algebra.Group.Nat.Defs
import FabricaNet.Go.SyncMap
import FabricaNet.Lib.Run

/-!
# The smux sessions of a KCP listener

`Listener.startSmux` of `kcp/server/listener.go` with the goroutines it starts, as steps: any number
of calls, each with the goroutine of its session. Of `GoAndStop` it is assumed that it runs its
first function in a new goroutine, and the second one there after the first has returned.

`smux.start` returns when the peer, the context or a stop makes it; here it may return at any time.
Its goroutine then deletes the session from `smuxSessions`. `startSmux` stores the session there
after it has started the goroutine, so the order of the two is open. A session that is deleted first
stays in the map for ever (`eachState_registers_iff`).

Ids come from a counter of 64 bits. As long as it does not wrap around, the order of the two is all
that matters (`eachState_registers_of_few`).
-/

namespace FabricaNet.Kcp

open Go Lib

/-- Where a call of `startSmux` is. -/
inductive StartSmuxPc where
  | newSmux
  | goAndStop
  /-- `l.smuxSessions.Store(id, smux)` -/
  | store
  | returned
  /-- `newSmux` returned an error -/
  | failed
deriving DecidableEq, Repr

/-- Where the goroutine of a session is. -/
inductive SmuxPc where
  | notStarted
  /-- in `smux.start` -/
  | start
  /-- `l.smuxSessions.Delete(id)` -/
  | delete
  /-- `smux.Stop(ctx)` -/
  | stop
  | ended
deriving DecidableEq, Repr

/-- A session, with the call of `startSmux` that makes it. -/
structure SmuxSession where
  id : Int64
  call : StartSmuxPc
  goroutine : SmuxPc
deriving DecidableEq, Repr

/-- The steps of a session. -/
inductive SmuxStep where
  /-- `newSmux` returns a session or an error -/
  | newSmux (ok : Bool)
  | goAndStop
  | store
  /-- `smux.start` returns -/
  | startReturns
  | delete
  | stop
deriving DecidableEq, Repr

namespace SmuxSession

/-- `startSmux` has its id. -/
def init (id : Int64) : SmuxSession := { id := id, call := .newSmux, goroutine := .notStarted }

def step (ss : SmuxSession) : SmuxStep → Option SmuxSession
  | .newSmux ok =>
    if ss.call = .newSmux then some { ss with call := if ok then .goAndStop else .failed } else none
  | .goAndStop =>
    if ss.call = .goAndStop then some { ss with call := .store, goroutine := .start } else none
  | .store => if ss.call = .store then some { ss with call := .returned } else none
  | .startReturns => if ss.goroutine = .start then some { ss with goroutine := .delete } else none
  | .delete => if ss.goroutine = .delete then some { ss with goroutine := .stop } else none
  | .stop => if ss.goroutine = .stop then some { ss with goroutine := .ended } else none

/-- The goroutine has made its `Delete`. -/
def deleted (ss : SmuxSession) : Bool := ss.goroutine = .stop || ss.goroutine = .ended

/-- `startSmux` has returned, and the stop callback has not come to its `Delete`. -/
def live (ss : SmuxSession) : Bool := ss.call = .returned && !ss.deleted

variable {ss ss' : SmuxSession} {b : SmuxStep}

theorem step_id (h : ss.step b = some ss') : ss'.id = ss.id := by
  cases b <;> (obtain ⟨-, ⟨⟩⟩ := Option.ite_none_right_eq_some.mp h; rfl)

/-- The call has not returned when its `Store` is next. -/
theorem not_live_of_store (h : ss.step .store = some ss') : ss.live = false := by
  obtain ⟨hpc, -⟩ := Option.ite_none_right_eq_some.mp h
  simp [live, hpc]

theorem live_of_store (h : ss.step .store = some ss') : ss'.live = !ss.deleted := by
  obtain ⟨-, ⟨⟩⟩ := Option.ite_none_right_eq_some.mp h
  simp [live, deleted]

theorem live_of_delete (h : ss.step .delete = some ss') : ss'.live = false := by
  obtain ⟨-, ⟨⟩⟩ := Option.ite_none_right_eq_some.mp h
  simp [live, deleted]

/-- The other steps change neither side. -/
theorem live_of_step (h : ss.step b = some ss') (hs : b ≠ .store) (hd : b ≠ .delete) :
    ss'.live = ss.live := by
  cases b with
  | newSmux ok =>
    obtain ⟨hpc, ⟨⟩⟩ := Option.ite_none_right_eq_some.mp h
    cases ok <;> simp [live, hpc]
  | goAndStop =>
    obtain ⟨hpc, ⟨⟩⟩ := Option.ite_none_right_eq_some.mp h
    simp [live, hpc]
  | store => exact absurd rfl hs
  | startReturns =>
    obtain ⟨hpc, ⟨⟩⟩ := Option.ite_none_right_eq_some.mp h
    simp [live, deleted, hpc]
  | delete => exact absurd rfl hd
  | stop =>
    obtain ⟨hpc, ⟨⟩⟩ := Option.ite_none_right_eq_some.mp h
    simp [live, deleted, hpc]

end SmuxSession

/-- The sessions of a listener. In the map a session is given by its position. -/
structure SmuxRun where
  smuxIDGenerator : Int64
  smuxSessions : SyncMap Int64 Nat
  /-- one for each call of `startSmux` -/
  sessions : List SmuxSession

inductive SmuxAct where
  /-- a call of `startSmux`, up to `l.smuxIDGenerator.Add(1)` -/
  | startSmux
  /-- a step of the `n`-th session -/
  | session (n : Nat) (b : SmuxStep)
deriving DecidableEq, Repr

namespace SmuxRun

/-- What `newListener` builds. -/
def init : SmuxRun := { smuxIDGenerator := 0, smuxSessions := SyncMap.empty, sessions := [] }

/-- `smuxSessions` after a step of the `n`-th session. -/
def register (m : SyncMap Int64 Nat) (n : Nat) (id : Int64) : SmuxStep → SyncMap Int64 Nat
  | .store => m.store id n
  | .delete => m.delete id
  | _ => m

def step (s : SmuxRun) : SmuxAct → Option SmuxRun
  | .startSmux =>
    let id := s.smuxIDGenerator + 1
    some { s with smuxIDGenerator := id, sessions := s.sessions ++ [.init id] }
  | .session n b =>
    s.sessions[n]?.bind fun ss => (ss.step b).map fun ss' =>
      { s with
        smuxSessions := register s.smuxSessions n ss.id b
        sessions := s.sessions.set n ss' }

variable {s s' : SmuxRun} {a : SmuxAct} {id : Int64} {m n : Nat} {ss ss' : SmuxSession}

/-- Both ways in which an action changes the listener. -/
inductive Effect (s : SmuxRun) : SmuxAct → SmuxRun → Prop
  | call : Effect s .startSmux { s with
      smuxIDGenerator := s.smuxIDGenerator + 1
      sessions := s.sessions ++ [.init (s.smuxIDGenerator + 1)] }
  | session {n : Nat} {b : SmuxStep} {ss ss' : SmuxSession} (at_ : s.sessions[n]? = some ss)
      (step : ss.step b = some ss') : Effect s (.session n b) { s with
      smuxSessions := register s.smuxSessions n ss.id b
      sessions := s.sessions.set n ss' }

theorem step_effect (h : s.step a = some s') : Effect s a s' := by
  cases a with
  | startSmux =>
    cases h
    exact .call
  | session n b =>
    obtain ⟨ss, hat, h⟩ := Option.bind_eq_some_iff.mp h
    obtain ⟨ss', hstep, ⟨⟩⟩ := Option.map_eq_some_iff.mp h
    exact .session hat hstep

/-! ## The map and the sessions -/

/-- The session has the id, its `startSmux` has returned and it is not deleted. -/
def LiveAt (sessions : List SmuxSession) (id : Int64) (n : Nat) : Prop :=
  ∃ ss, sessions[n]? = some ss ∧ ss.id = id ∧ ss.live = true

/-- `smuxSessions` holds the live sessions, each under its id, and nothing else. -/
def Registers (s : SmuxRun) : Prop :=
  ∀ id n, s.smuxSessions.load id = some n ↔ LiveAt s.sessions id n

/--
A `Store` finds the session not deleted yet and its id free; a `Delete` finds no other session under
the id.
-/
def Keeps (s : SmuxRun) (a : SmuxAct) : Prop :=
  ∀ n ss, s.sessions[n]? = some ss →
    (a = .session n .store → ss.deleted = false ∧ s.smuxSessions.load ss.id = none) ∧
      (a = .session n .delete → ∀ m, s.smuxSessions.load ss.id = some m → m = n)

section LiveAt

variable {sessions : List SmuxSession} {id id' : Int64} {m n : Nat} {ss ss' : SmuxSession}

theorem liveAt_of_getElem? (hat : sessions[n]? = some ss) :
    LiveAt sessions id n ↔ ss.id = id ∧ ss.live = true := by
  constructor
  · rintro ⟨ss₁, hat₁, h⟩
    cases hat.symm.trans hat₁
    exact h
  · exact fun h => ⟨ss, hat, h⟩

theorem liveAt_append_init :
    LiveAt (sessions ++ [.init id']) id n ↔ LiveAt sessions id n := by
  constructor
  · rintro ⟨ss, hat, hid, hlive⟩
    rw [List.getElem?_append] at hat
    split at hat
    · exact ⟨ss, hat, hid, hlive⟩
    · -- a call that has just begun has not returned
      obtain rfl : ss = .init id' := List.mem_singleton.mp (List.mem_of_getElem? hat)
      cases hlive
  · rintro ⟨ss, hat, h⟩
    have hn : n < sessions.length := (List.getElem?_eq_some_iff.mp hat).1
    exact ⟨ss, (List.getElem?_append_left hn).trans hat, h⟩

theorem liveAt_set_self (hat : sessions[n]? = some ss) (hid : ss'.id = ss.id) :
    LiveAt (sessions.set n ss') id n ↔ ss.id = id ∧ ss'.live = true := by
  have hn : n < sessions.length := (List.getElem?_eq_some_iff.mp hat).1
  rw [liveAt_of_getElem? (List.getElem?_set_self hn), hid]

theorem liveAt_set_ne (hne : m ≠ n) :
    LiveAt (sessions.set n ss') id m ↔ LiveAt sessions id m := by
  unfold LiveAt
  rw [List.getElem?_set_ne hne.symm]

end LiveAt

theorem registers_init : Registers init := by
  intro id n
  constructor
  · intro h
    cases h
  · rintro ⟨ss, hat, -⟩
    cases hat

/-- A step that is no `Store` and no `Delete` changes neither the map nor who is live. -/
theorem registers_quiet_iff {b : SmuxStep} (hat : s.sessions[n]? = some ss)
    (hstep : ss.step b = some ss') (hs : b ≠ .store) (hd : b ≠ .delete) :
    LiveAt (s.sessions.set n ss') id m ↔ LiveAt s.sessions id m := by
  by_cases hm : m = n
  · subst hm
    rw [liveAt_set_self hat (SmuxSession.step_id hstep), liveAt_of_getElem? hat,
      SmuxSession.live_of_step hstep hs hd]
  · exact liveAt_set_ne hm

/-- Under a `Store` the map stays right exactly when the session is not deleted and its id free. -/
theorem registers_store_iff (h : Registers s) (hat : s.sessions[n]? = some ss)
    (hstep : ss.step .store = some ss') :
    (∀ id m, (s.smuxSessions.store ss.id n).load id = some m ↔
        LiveAt (s.sessions.set n ss') id m) ↔
      ss.deleted = false ∧ s.smuxSessions.load ss.id = none := by
  have hself : ∀ id, LiveAt (s.sessions.set n ss') id n ↔ ss.id = id ∧ ss.deleted = false := by
    intro id
    rw [liveAt_set_self hat (SmuxSession.step_id hstep), SmuxSession.live_of_store hstep,
      Bool.not_eq_true']
  have hnot : ∀ id, ¬LiveAt s.sessions id n := by
    intro id hlive
    rw [liveAt_of_getElem? hat, SmuxSession.not_live_of_store hstep] at hlive
    cases hlive.2
  constructor
  · intro h'
    have hload : (s.smuxSessions.store ss.id n).load ss.id = some n := by
      rw [SyncMap.load_store, if_pos rfl]
    refine ⟨((hself ss.id).mp ((h' ss.id n).mp hload)).2, ?_⟩
    -- a session that had the id before would be live beside the one that is stored
    refine Option.eq_none_iff_forall_ne_some.mpr fun m hm => ?_
    have hlive := (h ss.id m).mp hm
    have hne : m ≠ n := fun hmn => hnot ss.id (hmn ▸ hlive)
    have hload' := (h' ss.id m).mpr ((liveAt_set_ne hne).mpr hlive)
    rw [hload] at hload'
    exact hne (Option.some.inj hload').symm
  · rintro ⟨hdel, hfree⟩ id m
    rw [SyncMap.load_store]
    by_cases hm : m = n
    · subst hm
      rw [hself id]
      split
      · next hid => simp [hid, hdel]
      · next hid =>
        exact ⟨fun hl => absurd ((h id m).mp hl) (hnot id), fun hl => absurd hl.1.symm hid⟩
    · rw [liveAt_set_ne hm, ← h id m]
      split
      · next hid =>
        rw [hid, hfree]
        exact iff_of_false (fun hl => hm (Option.some.inj hl).symm) (Option.some_ne_none m).symm
      · rfl

/-- Under a `Delete` the map stays right exactly when no other session has the id. -/
theorem registers_delete_iff (h : Registers s) (hat : s.sessions[n]? = some ss)
    (hstep : ss.step .delete = some ss') :
    (∀ id m, (s.smuxSessions.delete ss.id).load id = some m ↔
        LiveAt (s.sessions.set n ss') id m) ↔
      ∀ m, s.smuxSessions.load ss.id = some m → m = n := by
  have hself : ∀ id, ¬LiveAt (s.sessions.set n ss') id n := by
    intro id hlive
    rw [liveAt_set_self hat (SmuxSession.step_id hstep), SmuxSession.live_of_delete hstep] at hlive
    cases hlive.2
  constructor
  · intro h' m hm
    by_contra hne
    have hload := (h' ss.id m).mpr ((liveAt_set_ne hne).mpr ((h ss.id m).mp hm))
    rw [SyncMap.load_delete, if_pos rfl] at hload
    cases hload
  · intro honly id m
    rw [SyncMap.load_delete]
    by_cases hm : m = n
    · subst hm
      refine ⟨fun hl => ?_, fun hl => absurd hl (hself id)⟩
      obtain ⟨hid, hl⟩ := Option.ite_none_left_eq_some.mp hl
      have hid' := ((liveAt_of_getElem? hat).mp ((h id m).mp hl)).1
      exact absurd hid'.symm hid
    · rw [liveAt_set_ne hm, ← h id m]
      split
      · next hid =>
        exact iff_of_false (Option.some_ne_none m).symm fun hl => hm (honly m (hid ▸ hl))
      · rfl

/-- The condition for a step of one session. -/
theorem keeps_session_iff {b : SmuxStep} (hat : s.sessions[n]? = some ss) :
    s.Keeps (.session n b) ↔
      (b = .store → ss.deleted = false ∧ s.smuxSessions.load ss.id = none) ∧
        (b = .delete → ∀ m, s.smuxSessions.load ss.id = some m → m = n) := by
  constructor
  · intro hk
    exact ⟨fun hb => (hk n ss hat).1 (by rw [hb]), fun hb => (hk n ss hat).2 (by rw [hb])⟩
  · rintro hk n' ss₁ hat₁
    constructor
    · rintro ⟨⟩
      cases hat.symm.trans hat₁
      exact hk.1 rfl
    · rintro ⟨⟩
      cases hat.symm.trans hat₁
      exact hk.2 rfl

/-- **One step: the map stays right exactly under the condition.** -/
theorem registers_step_iff (h : Registers s) (hs : s.step a = some s') :
    Registers s' ↔ s.Keeps a := by
  cases step_effect hs with
  | call =>
    refine iff_of_true (fun id n => ?_) (fun n ss hat => ⟨nofun, nofun⟩)
    exact (h id n).trans liveAt_append_init.symm
  | @session n b ss ss' hat hstep =>
    rw [keeps_session_iff hat]
    by_cases hst : b = .store
    · subst hst
      exact (registers_store_iff h hat hstep).trans
        ⟨fun hk => ⟨fun _ => hk, nofun⟩, fun hk => hk.1 rfl⟩
    by_cases hde : b = .delete
    · subst hde
      exact (registers_delete_iff h hat hstep).trans
        ⟨fun hk => ⟨nofun, fun _ => hk⟩, fun hk => hk.2 rfl⟩
    have hreg : register s.smuxSessions n ss.id b = s.smuxSessions := by
      cases b <;> first | rfl | contradiction
    refine iff_of_true (fun id m => ?_) ⟨fun hb => absurd hb hst, fun hb => absurd hb hde⟩
    show (register s.smuxSessions n ss.id b).load id = some m ↔ _
    rw [hreg]
    exact (h id m).trans (registers_quiet_iff hat hstep hst hde).symm

/--
**`smuxSessions` holds exactly the sessions that are live, all along a run, if and only if every
`Store` comes before the `Delete` of its session and no id is taken again while it is in the map.**
-/
theorem eachState_registers_iff (acts : List SmuxAct) :
    EachState step Registers init acts ↔ EachStep step (fun s a _ => s.Keeps a) init acts := by
  refine eachState_iff_of_step (I := fun _ _ => True) ?_ ?_ trivial registers_init
  · exact fun _ _ _ _ _ _ => trivial
  · exact fun s a s' _ _ h hs => registers_step_iff h hs

/--
`smux.start` fails at once: its goroutine comes to `Delete` before `startSmux` comes to `Store`. The
call has returned and the goroutine has ended, and the session is in the map.
-/
theorem delete_before_store :
    let acts : List SmuxAct := [.startSmux, .session 0 (.newSmux true), .session 0 .goAndStop,
      .session 0 .startReturns, .session 0 .delete, .session 0 .stop, .session 0 .store]
    (Lib.run step init acts).map (fun s => (s.sessions, s.smuxSessions.load 1)) =
        some ([{ id := 1, call := .returned, goroutine := .ended }], some 0) ∧
      ¬EachState step Registers init acts := by
  refine ⟨by decide +kernel, fun h => ?_⟩
  have hlast := h.of_run rfl
  obtain ⟨ss, hat, -, hlive⟩ := (hlast 1 0).mp (by decide +kernel)
  cases hat
  cases hlive

/-! ## Fewer calls than ids -/

/-- Ids are given in order. -/
structure Numbered (s : SmuxRun) : Prop where
  next : s.smuxIDGenerator = Int64.ofNat s.sessions.length
  id_eq : ∀ n ss, s.sessions[n]? = some ss → ss.id = Int64.ofNat (n + 1)

theorem numbered_init : Numbered init := ⟨rfl, nofun⟩

theorem Numbered.step (h : Numbered s) (hs : s.step a = some s') : Numbered s' := by
  cases step_effect hs with
  | call =>
    have hnext : s.smuxIDGenerator + 1 = Int64.ofNat (s.sessions.length + 1) := by
      rw [h.next, Int64.ofNat_add]
      rfl
    refine ⟨?_, fun n ss hat => ?_⟩
    · rw [List.length_append]
      exact hnext
    · rw [List.getElem?_append] at hat
      split at hat
      · exact h.id_eq n ss hat
      · next hn =>
        have hlt := (List.getElem?_eq_some_iff.mp hat).1
        rw [List.length_singleton] at hlt
        obtain rfl : n = s.sessions.length := by omega
        obtain rfl : ss = .init (s.smuxIDGenerator + 1) :=
          List.mem_singleton.mp (List.mem_of_getElem? hat)
        exact hnext
  | @session n b ss ss' hat hstep =>
    refine ⟨by rw [List.length_set]; exact h.next, fun m ss₁ hat₁ => ?_⟩
    by_cases hm : n = m
    · subst hm
      rw [List.getElem?_set_self (List.getElem?_eq_some_iff.mp hat).1] at hat₁
      cases hat₁
      rw [SmuxSession.step_id hstep]
      exact h.id_eq n ss hat
    · rw [List.getElem?_set_ne hm] at hat₁
      exact h.id_eq m ss₁ hat₁

/-- As long as the counter has not wrapped around, an id is the id of one session. -/
theorem Numbered.id_inj (h : Numbered s) (hfew : s.sessions.length < 2 ^ 64)
    (hm : s.sessions[m]? = some ss) (hn : s.sessions[n]? = some ss') (hid : ss.id = ss'.id) :
    m = n := by
  have hm' : m < s.sessions.length := (List.getElem?_eq_some_iff.mp hm).1
  have hn' : n < s.sessions.length := (List.getElem?_eq_some_iff.mp hn).1
  rw [h.id_eq m ss hm, h.id_eq n ss' hn] at hid
  have hbits := congrArg Int64.toBitVec hid
  rw [Int64.toBitVec_ofNat', Int64.toBitVec_ofNat'] at hbits
  have hnat := congrArg BitVec.toNat hbits
  rw [BitVec.toNat_ofNat, BitVec.toNat_ofNat] at hnat
  omega

theorem length_of_step (hs : s.step a = some s') (acts : List SmuxAct) :
    s'.sessions.length + acts.count .startSmux =
      s.sessions.length + (a :: acts).count .startSmux := by
  cases step_effect hs with
  | call =>
    rw [List.length_append, List.length_singleton, List.count_cons_self]
    omega
  | session hat hstep =>
    rw [List.length_set, List.count_cons_of_ne SmuxAct.noConfusion]

/-- A `Store` finds the session not deleted yet. -/
def StoresFirst (s : SmuxRun) (a : SmuxAct) : Prop :=
  ∀ n ss, s.sessions[n]? = some ss → a = .session n .store → ss.deleted = false

/-- With an id for each session the rest of the condition is met. -/
theorem keeps_iff (h : Registers s) (hnum : Numbered s) (hfew : s.sessions.length < 2 ^ 64)
    (hs : s.step a = some s') : s.Keeps a ↔ s.StoresFirst a := by
  have honly : ∀ n ss m, s.sessions[n]? = some ss → s.smuxSessions.load ss.id = some m →
      m = n ∧ ss.live = true := by
    intro n ss m hat hload
    obtain ⟨ss₁, hat₁, hid, hlive⟩ := (h ss.id m).mp hload
    obtain rfl := hnum.id_inj hfew hat₁ hat hid
    cases hat.symm.trans hat₁
    exact ⟨rfl, hlive⟩
  constructor
  · exact fun hk n ss hat ha => ((hk n ss hat).1 ha).1
  · intro hfirst n ss hat
    refine ⟨fun ha => ⟨hfirst n ss hat ha, ?_⟩, fun _ m hload => (honly n ss m hat hload).1⟩
    refine Option.eq_none_iff_forall_ne_some.mpr fun m hload => ?_
    -- the session itself is not in the map: its `Store` is only coming
    subst ha
    cases step_effect hs with
    | session hat' hstep =>
      cases hat.symm.trans hat'
      have hlive := (honly n ss m hat hload).2
      rw [SmuxSession.not_live_of_store hstep] at hlive
      cases hlive

/--
**In a run with fewer than `2 ^ 64` calls of `startSmux`, `smuxSessions` holds exactly the live
sessions if and only if every `Store` comes before the `Delete` of its session.**
-/
theorem eachState_registers_of_few {acts : List SmuxAct} (hfew : acts.count .startSmux < 2 ^ 64) :
    EachState step Registers init acts ↔
      EachStep step (fun s a _ => s.StoresFirst a) init acts := by
  refine eachState_iff_of_step
    (I := fun s as => Numbered s ∧ s.sessions.length + as.count .startSmux < 2 ^ 64)
    ?_ ?_ ⟨numbered_init, by simpa [init] using hfew⟩ registers_init
  · rintro s a s' as ⟨hnum, hlen⟩ hs
    exact ⟨hnum.step hs, length_of_step hs as ▸ hlen⟩
  · rintro s a s' as ⟨hnum, hlen⟩ h hs
    exact (registers_step_iff h hs).trans (keeps_iff h hnum (by omega) hs)

end SmuxRun

end FabricaNet.Kcp
