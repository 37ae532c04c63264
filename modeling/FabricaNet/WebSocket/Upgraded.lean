import FabricaNet.WebSocket.Listener

/-!
# Upgraded connections

After `Upgrade` a connection belongs to the listener, until `Accept` returns it. The listener has
three ways to lose it. `handleWebSocket` drops it when `connChan` is full, the send on a closed
`connChan` takes the handler down, and what is in the channel when `Stop` returns stays there. In
none of them is `Close` called.

* `eachState_kept_iff` — a connection is queued, delivered once or closed from its handler's
  `select` on, exactly when the handlers find the channel open with room in it
* `eachState_accounted_iff` — no connection is abandoned by `Stop` either, exactly when in addition
  `Stop` returns only on an empty channel
-/

namespace FabricaNet.WebSocket

open Go Lib Xnet Internal

namespace ListenerRun

variable {s s' : ListenerRun} {a : ListenerAct}

/--
Every upgraded connection is in one place: with its handler, in the channel, returned by `Accept` or
closed. When a `Stop` has returned, none is in the channel.
-/
structure Accounted (s : ListenerRun) : Prop where
  one : ∀ i < s.conns.length, s.places i = 1
  drained : ∀ place err, s.stops place = .returned err → s.connChan.buf = []

/-- A `Stop` that returns leaves nothing in the channel. -/
def Drains (s : ListenerRun) (a : ListenerAct) : Prop :=
  ∀ place err err', a = .stopStep place err → s.afterStop place err = some (.returned err') →
    s.connChan.buf = []

/-- **No connection is lost in a step exactly when the handler finds room for it.** -/
theorem Moves.one_iff (hm : Moves s s' a) (hone : ∀ i < s.conns.length, s.places i = 1)
    (hle : ∀ i, s.places i ≤ if i < s.conns.length then 1 else 0) :
    (∀ i < s'.conns.length, s'.places i = 1) ↔ s.FindsRoom a := by
  cases hm with
  | keep room len frame =>
    refine iff_of_true (fun i hi => ?_) room
    rw [frame]
    exact hone i (len ▸ hi)
  | fresh len frame =>
    refine iff_of_true (fun i hi => ?_) nofun
    rw [frame]
    split
    · next hnew =>
      have hzero := hle i
      rw [if_neg (by omega)] at hzero
      omega
    · exact hone i (by omega)
  | @lose i full len lt frame =>
    refine iff_of_false (fun h' => ?_) full
    have hi := frame i
    rw [if_pos rfl, hone i lt, h' i (len ▸ lt)] at hi
    cases hi

/-- A step keeps the channel of a stopped listener empty exactly when a `Stop` returns then only. -/
theorem Effect.drained_iff (heff : Effect s a s') (h : Sound s)
    (hdrained : ∀ place err, s.stops place = .returned err → s.connChan.buf = []) :
    (∀ place err, s'.stops place = .returned err → s'.connChan.buf = []) ↔ s.Drains a := by
  -- on an open channel no `Stop` has been called
  have hopen : s.connChan.closed = false → ∀ place err, s.stops place ≠ .returned err := by
    intro hc place err hp
    have hclosed := h.closed place (by rw [hp]; nofun)
    rw [hc] at hclosed
    cases hclosed
  cases heff with
  | aside same act =>
    refine iff_of_true ?_ fun place err err' ha => ?_
    · rw [same.stops_eq, same.connChan_eq]
      exact hdrained
    · rw [ha] at act
      cases act
  | upgraded | lost => exact iff_of_true hdrained nofun
  | sent hat pc opened room =>
    exact iff_of_true (fun place err hp => absurd hp (hopen opened place err)) nofun
  | received buf_eq closed_eq =>
    refine iff_of_true (fun place err hp => ?_) nofun
    have hempty := hdrained place err hp
    rw [buf_eq] at hempty
    cases hempty
  | ended closed empty => exact iff_of_true (fun _ _ _ => empty) nofun
  | @close place opened =>
    refine iff_of_true (fun place' err hp => ?_) nofun
    change (s.setStop place .shutdown).stops place' = _ at hp
    rw [stops_setStop] at hp
    split at hp
    · cases hp
    · exact absurd hp (hopen opened place' err)
  | @closeAgain place closed =>
    refine iff_of_true (fun place' err hp => ?_) nofun
    rw [stops_setStop] at hp
    split at hp
    · cases hp
    · exact hdrained place' err hp
  | @stopNext place err pc next =>
    constructor
    · rintro h' _ _ err' ⟨⟩ hret
      cases next.symm.trans hret
      exact h' place err' (Function.update_self ..)
    · intro hdrains place' err' hp
      rw [stops_setStop] at hp
      split at hp
      · exact hdrains place err err' rfl (next.trans (congrArg some hp))
      · exact hdrained place' err' hp

/--
From its handler's `select` on a connection is in the channel, was returned by `Accept` exactly
once, or is closed.
-/
def Kept (s : ListenerRun) : Prop :=
  ∀ i c, s.conns[i]? = some c → c.handler ≠ .select →
    (∃ x ∈ s.connChan.buf, x.conn = some i) ∨ s.delivered.countP (carries i) = 1 ∨ c.closed = true

theorem places_of_getElem? {i : Nat} {c : WsConn} (hat : s.conns[i]? = some c) :
    s.places i = held c + s.connChan.buf.countP (carries i) + s.delivered.countP (carries i) := by
  rw [places, hat]
  rfl

theorem countP_carries_pos_iff {i : Nat} :
    0 < s.connChan.buf.countP (carries i) ↔ ∃ x ∈ s.connChan.buf, x.conn = some i := by
  simp only [List.countP_pos_iff, carries, decide_eq_true_eq]

theorem kept_iff (h : Sound s) : Kept s ↔ ∀ i < s.conns.length, s.places i = 1 := by
  constructor
  · intro hkept i hi
    have hat : s.conns[i]? = some s.conns[i] := List.getElem?_eq_getElem hi
    have hle := h.places_le i
    have hplaces := places_of_getElem? hat
    rw [if_pos hi] at hle
    by_cases hselect : s.conns[i].handler = .select
    · rw [held, if_pos hselect] at hplaces
      omega
    · rw [held, if_neg hselect] at hplaces
      rcases hkept i _ hat hselect with hqueued | honce | hclosed
      · have hpos := countP_carries_pos_iff.mpr hqueued
        omega
      · omega
      · rw [if_pos hclosed] at hplaces
        omega
  · intro hone i c hat hselect
    have hplaces := places_of_getElem? hat
    rw [hone i (List.getElem?_eq_some_iff.mp hat).1, held, if_neg hselect] at hplaces
    cases hclosed : c.closed with
    | true => exact .inr (.inr rfl)
    | false =>
      rw [hclosed, if_neg Bool.false_ne_true] at hplaces
      rcases Nat.eq_zero_or_pos (s.connChan.buf.countP (carries i)) with hzero | hpos
      · exact .inr (.inl (by omega))
      · exact .inl (countP_carries_pos_iff.mp hpos)

/--
**From the `select` on every upgraded connection is queued, delivered once or closed, exactly in the
runs in which every handler finds the channel open with room in it.**
-/
theorem eachState_kept_iff (acts : List ListenerAct) :
    EachState step Kept init acts ↔ EachStep step (fun s a _ => s.FindsRoom a) init acts := by
  refine eachState_iff_of_step (I := fun s _ => Sound s) ?_ ?_ sound_init nofun
  · exact fun s a s' _ h hs => h.step hs
  · intro s a s' _ h hkept hs
    rw [kept_iff (h.step hs)]
    exact (step_effect hs).moves.one_iff ((kept_iff h).mp hkept) h.places_le

theorem Accounted.step_iff (hacc : Accounted s) (h : Sound s) (hs : s.step a = some s') :
    Accounted s' ↔ s.FindsRoom a ∧ s.Drains a := by
  have heff := step_effect hs
  have hone := heff.moves.one_iff hacc.one h.places_le
  have hdrained := heff.drained_iff h hacc.drained
  exact ⟨fun h' => ⟨hone.mp h'.one, hdrained.mp h'.drained⟩,
    fun hc => ⟨hone.mpr hc.1, hdrained.mpr hc.2⟩⟩

/--
**No upgraded connection is lost exactly in the runs in which every handler finds the channel open
with room in it, and in which `Stop` returns only when the channel is empty.**
-/
theorem eachState_accounted_iff (acts : List ListenerAct) :
    EachState step Accounted init acts ↔
      EachStep step (fun s a _ => s.FindsRoom a ∧ s.Drains a) init acts := by
  have hinit : Accounted init := ⟨nofun, nofun⟩
  refine eachState_iff_of_step (I := fun s _ => Sound s) ?_ ?_ sound_init hinit
  · exact fun s a s' _ h hs => h.step hs
  · exact fun s a s' _ h hacc hs => hacc.step_iff h hs

/-! ## Losses -/

/-- `Start`, and then `n` connections that no `Accept` takes. -/
def fill : Nat → List ListenerAct
  | 0 => [.start true]
  | n + 1 => fill n ++ [.upgrade true, .select n]

/-- The listener after `fill n`. -/
structure Filled (s : ListenerRun) (n : Nat) : Prop where
  sound : Sound s
  serving : s.serve = .serving
  opened : s.connChan.closed = false
  cap : s.connChan.cap = 1024
  conns : s.conns.length = n
  queued : s.connChan.buf.length = n

section Filled

variable {n : Nat} (h : Filled s n)
include h

theorem Filled.step_upgrade : s.step (.upgrade true) = some s.addConn := by
  simp [step, h.serving]

theorem Filled.step_select : s.addConn.step (.select n) = some (s.addConn.select n .upgraded) := by
  have hat : s.addConn.conns[n]? = some .upgraded := by
    rw [← h.conns]
    exact List.getElem?_concat_length
  simp only [step, hat]
  rfl

theorem Filled.run_upgrade_select :
    Lib.run step s [.upgrade true, .select n] = some (s.addConn.select n .upgraded) :=
  run_cons_eq_some.mpr ⟨_, h.step_upgrade, run_cons_eq_some.mpr ⟨_, h.step_select, rfl⟩⟩

theorem Filled.select (hn : n < 1024) : Filled (s.addConn.select n .upgraded) (n + 1) := by
  have hsound := (h.sound.step h.step_upgrade).step h.step_select
  have hsend : ∀ x, s.connChan.send x =
      .done { s.connChan with buf := s.connChan.buf ++ [x] } := by
    intro x
    simp [Chan.send, h.opened, h.queued, h.cap, hn]
  simp only [ListenerRun.select, addConn, hsend] at hsound ⊢
  exact ⟨hsound, h.serving, h.opened, h.cap, by simp [setHandler, h.conns], by simp [h.queued]⟩

/-- On a full channel the `select` takes its `default`, and the connection is nowhere. -/
theorem Filled.places_select_full (hn : n = 1024) :
    n < (s.addConn.select n .upgraded).conns.length ∧
      (s.addConn.select n .upgraded).places n = 0 := by
  have hupgrade := (step_effect h.step_upgrade).moves
  have hselect := (step_effect h.step_select).moves
  have hnone := h.sound.places_le n
  rw [if_neg (by rw [h.conns]; exact Nat.lt_irrefl n)] at hnone
  cases hupgrade with
  | keep room len frame =>
    simp [addConn] at len
  | fresh len frame =>
    have hone := frame n
    rw [if_pos h.conns.symm] at hone
    cases hselect with
    | keep room len frame =>
      have hroom : s.connChan.buf.length < s.connChan.cap := (room n rfl).2
      rw [h.queued, h.cap, hn] at hroom
      exact absurd hroom (Nat.lt_irrefl 1024)
    | lose full len' lt frame' =>
      have hzero := frame' n
      rw [if_pos rfl] at hzero
      exact ⟨len' ▸ lt, by omega⟩

end Filled

theorem exists_run_fill {n : Nat} (hn : n ≤ 1024) :
    ∃ s, Lib.run step init (fill n) = some s ∧ Filled s n := by
  induction n with
  | zero => exact ⟨_, rfl, sound_init.step (a := .start true) rfl, rfl, rfl, rfl, rfl, rfl⟩
  | succ n ih =>
    obtain ⟨s, hrun, h⟩ := ih (by omega)
    refine ⟨s.addConn.select n .upgraded, ?_, h.select (by omega)⟩
    rw [fill, run_append, hrun]
    exact h.run_upgrade_select

/--
With 1024 connections in the channel the next one is dropped, and it is not closed. A connection in
the channel when `Stop` returns stays there.
-/
theorem dropped_when_full :
    (∃ s, Lib.run step init (fill 1024 ++ [.upgrade true, .select 1024]) = some s ∧
        1024 < s.conns.length ∧ s.places 1024 = 0) ∧
      ¬EachState step Accounted init (fill 1024 ++ [.upgrade true, .select 1024]) ∧
      ¬EachState step Accounted init [.start true, .upgrade true, .select 0, .stop .baseServer,
        .stopStep .baseServer none, .stopStep .baseServer none] := by
  obtain ⟨s, hfill, h⟩ := exists_run_fill (Nat.le_refl 1024)
  have hrun : Lib.run step init (fill 1024 ++ [.upgrade true, .select 1024]) =
      some (s.addConn.select 1024 .upgraded) := by
    rw [run_append, hfill]
    exact h.run_upgrade_select
  obtain ⟨hlt, hzero⟩ := h.places_select_full rfl
  refine ⟨⟨_, hrun, hlt, hzero⟩, fun hacc => ?_, fun hacc => ?_⟩
  · have hone := (hacc.of_run hrun).one 1024 hlt
    rw [hzero] at hone
    cases hone
  · cases (hacc.of_run rfl).drained .baseServer none rfl

end ListenerRun

end FabricaNet.WebSocket
