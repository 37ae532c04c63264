import FabricaNet.Internal.BatchLookup
import FabricaNet.Internal.SendSafety

/-!
# Multicast and Broadcast

`BaseServer.Multicast` and `BaseServer.Broadcast` of `internal/server.go`. Both call `Push` on one
worker after the other and join the errors into the named result `err`. Both end with `return nil`,
which assigns `nil` to that result: the errors are lost (`fan_out_reports_iff`).

## Push

The two functions take `w.Push(ctx, pack)` as an argument: from the state of the queues and a worker
it gives the error and the queues afterwards, or `none` when it does not return. `SendQueue.push` is
such a function, a `Push` that nothing interrupts (`run_push` compares it with the steps of a
worker). With it, each target has the pack in its queue once, and no other queue changes
(`fan_out_reaches_targets`).

`errors.JoinUnsimilar` is an argument as well. Its result is an error, never `nil`.
-/

namespace FabricaNet.Internal

open Go Lib Xnet

/-! ## The functions -/

section Functions

variable {τ : Type} (joinUnsimilar : Option Err → Err → Err)
  (push : τ → Worker → Option (Option Err × τ))

/-- The body of both loops: `Push`, with its error joined to the named result. -/
def pushNext (st : Option Err × τ) (w : Worker) : Option (Option Err × τ) :=
  match push st.2 w with
  | none => none
  | some (none, t) => some (st.1, t)
  | some (some pusherr, t) => some (some (joinUnsimilar st.1 pusherr), t)

/-- `Push` on one worker after the other. -/
def pushAll (ws : List Worker) (st : Option Err × τ) : Option (Option Err × τ) :=
  ws.foldlM (pushNext joinUnsimilar push) st

theorem pushAll_cons (w : Worker) (ws : List Worker) (st : Option Err × τ) :
    pushAll joinUnsimilar push (w :: ws) st =
      (pushNext joinUnsimilar push st w).bind (pushAll joinUnsimilar push ws) := by
  rw [pushAll, List.foldlM_cons]
  rfl

/-- `BaseServer.Multicast`. `order` is the order in which the loop ranges over the result map. -/
def multicast (stopping : Bool) (r : Registry) (order : RangeOrder Int64 Worker)
    (uids : List Int64) (pack : Pack) (t : τ) : Option (Option Err × τ) :=
  if stopping then some (some errIsStopped, t)
  else if pack.length = 0 then some (some (.new "multicast msg len <= 0"), t)
  else
    let workers := getByUIDs r.idx r.manager uids
    match pushAll joinUnsimilar push ((order.visits workers).map Prod.snd) (none, t) with
    | none => none
    -- `return nil`, whatever has been joined to `err`
    | some (_, t) => some (none, t)

/-- The function that `Broadcast` passes to `Walk`. In the state `none` it does not return. -/
def broadcastVisit (color : String) (sid : Int64) (st : Option (Option Err × τ)) (w : Worker) :
    Option (Option Err × τ) × Bool :=
  match st with
  | none => (none, false)
  | some st =>
    match w.session with
    -- a call of a method on the nil session panics
    | none => (none, false)
    | some ss =>
      if ss.color ≠ color ∨ ss.sid ≠ sid then (some st, true)
      else
        match pushNext joinUnsimilar push st w with
        | none => (none, false)
        | some st => (some st, true)

/-- `BaseServer.Broadcast`. `order` gives the orders of the `Range` calls of `Walk`. -/
def broadcast (stopping : Bool) (r : Registry) (order : Nat → RangeOrder UInt64 Worker)
    (color : String) (sid : Int64) (pack : Pack) (t : τ) : Option (Option Err × τ) :=
  if stopping then some (some errIsStopped, t)
  else if pack.length = 0 then some (some (.new "broadcast msg len <= 0"), t)
  else
    match r.manager.walk order (broadcastVisit joinUnsimilar push color sid) (some (none, t)) with
    | none => none
    -- `return nil`, whatever has been joined to `err`
    | some (_, t) => some (none, t)

end Functions

/-! ## The queue of a worker -/

/-- What `Worker.Push` reads and writes. Only `Stop` closes the channel, and it is stopping then. -/
structure SendQueue where
  stopping : Bool
  sendChan : Chan Pack
  open_of_running : stopping = false → sendChan.closed = false

namespace SendQueue

/-- The queue with one more pack. -/
def enqueue (q : SendQueue) (out : Pack) : SendQueue :=
  { q with sendChan := { q.sendChan with buf := q.sendChan.buf ++ [out] } }

/-- `Worker.Push`, when nothing interrupts it. It does not return when the queue is full. -/
def push (q : SendQueue) (out : Pack) : Option (Option Err × SendQueue) :=
  if q.stopping then some (some (.new "worker is stopping"), q)
  else if out.length = 0 then some (some (.new "push msg len <= 0"), q)
  else
    match q.sendChan.send out with
    | .blocked | .panic => none
    | .done _ => some (none, q.enqueue out)

/-- There is room, unless the worker is stopping and takes nothing. -/
def HasRoom (q : SendQueue) : Prop :=
  q.stopping = false → q.sendChan.buf.length < q.sendChan.cap

theorem push_stopping {q : SendQueue} (h : q.stopping = true) (out : Pack) :
    q.push out = some (some (.new "worker is stopping"), q) := by
  rw [push, if_pos h]

theorem push_running {q : SendQueue} (h : q.stopping = false) (hroom : q.HasRoom) {out : Pack}
    (hout : out ≠ []) : q.push out = some (none, q.enqueue out) := by
  have hsend : q.sendChan.send out =
      .done { q.sendChan with buf := q.sendChan.buf ++ [out] } := by
    rw [Chan.send, if_neg (by simp [q.open_of_running h]), if_pos (hroom h)]
  rw [push, if_neg (by simp [h]), if_neg (by simpa using hout), hsend]

end SendQueue

/-! ### The queue in a run of the worker -/

namespace WorkerRun

/-- The queue of a worker in the middle of a run. -/
def queue (s : WorkerRun) (h : s.StopOrder) : SendQueue where
  stopping := s.stopping
  sendChan :=
    { cap := s.sendChan.cap, buf := s.sendChan.buf.map Prod.snd, closed := s.sendChan.closed }
  open_of_running := by
    intro hrunning
    show s.sendChan.closed = false
    rw [h.closed_iff]
    cases hstop : s.stop with
    | notCalled | disconnect | stopTunnels | closeChan => rfl
    | closeConn | done =>
      rw [h.stopping_of_called (by simp [hstop])] at hrunning
      cases hrunning

/-- How a call of `Push` has ended. -/
def pushEnd (out : Pack) : Option Err → PushPc
  | none => .accepted out
  | some err => .refused err

section RunPush

variable {s : WorkerRun} {i : Nat} {out : Pack}

theorem step_push (hidle : s.pushes i = .idle) (out : Pack) :
    s.step (.push i out) = some (s.setPush i (.check out)) := by
  simp [step, hidle]

@[simp] theorem pushes_setPush_self (s : WorkerRun) (i : Nat) (pc : PushPc) :
    (s.setPush i pc).pushes i = pc := Function.update_self ..

theorem step_check_stopping (hpc : s.pushes i = .check out) (hstop : s.stopping = true) :
    s.step (.pushStep i) = some (s.setPush i (.refused (.new "worker is stopping"))) := by
  simp [step, pushStep, hpc, hstop]

theorem step_check_empty (hpc : s.pushes i = .check out) (hstop : s.stopping = false)
    (hout : out = []) :
    s.step (.pushStep i) = some (s.setPush i (.refused (.new "push msg len <= 0"))) := by
  simp [step, pushStep, hpc, hstop, hout]

theorem step_check_pass (hpc : s.pushes i = .check out) (hstop : s.stopping = false)
    (hout : out ≠ []) : s.step (.pushStep i) = some (s.setPush i (.send out)) := by
  simp [step, pushStep, hpc, hstop, hout]

theorem step_send {c : Chan Item} (hpc : s.pushes i = .send out)
    (hsend : s.sendChan.send (i, out) = .done c) :
    s.step (.pushStep i) = some ({ s with sendChan := c }.setPush i (.sent out)) := by
  simp [step, pushStep, hpc, hsend]

theorem step_sent (hpc : s.pushes i = .sent out) :
    s.step (.pushStep i) = some (s.setPush i (.accepted out)) := by
  simp [step, pushStep, hpc]

/-- The item on the channel of a run carries the number of the call. -/
theorem send_of_queue {h : s.StopOrder} {c : Chan Pack}
    (hsend : (s.queue h).sendChan.send out = .done c) :
    s.sendChan.send (i, out) = .done { s.sendChan with buf := s.sendChan.buf ++ [(i, out)] } := by
  have hroom := Chan.length_of_send hsend
  obtain ⟨hclosed, rfl⟩ := Chan.send_eq_done hsend
  have hclosed' : ¬s.sendChan.closed = true := Bool.eq_false_iff.mp hclosed
  have hroom' : s.sendChan.buf.length < s.sendChan.cap := by
    simpa [queue, Nat.succ_le_iff] using hroom
  rw [Chan.send, if_neg hclosed', if_pos hroom']

/-- **`SendQueue.push` is what the steps of a `Push` come to when no other step intervenes.** -/
theorem run_push (h : s.StopOrder) (hidle : s.pushes i = .idle) {err : Option Err} {q : SendQueue}
    (hpush : (s.queue h).push out = some (err, q)) :
    ∃ n s', Lib.run step s (.push i out :: List.replicate n (.pushStep i)) = some s' ∧
      s'.pushes i = pushEnd out err ∧ s'.stopping = q.stopping ∧
      s'.sendChan.buf.map Prod.snd = q.sendChan.buf := by
  have hcall := step_push hidle out
  have hcheck := pushes_setPush_self s i (.check out)
  unfold SendQueue.push at hpush
  split at hpush
  · next hstop =>
    cases hpush
    have hrefuse := step_check_stopping hcheck hstop
    exact ⟨1, _, run_cons_eq_some.mpr ⟨_, hcall, run_cons_eq_some.mpr ⟨_, hrefuse, rfl⟩⟩,
      pushes_setPush_self .., rfl, rfl⟩
  · next hstop =>
    have hrunning : s.stopping = false := Bool.eq_false_iff.mpr hstop
    split at hpush
    · next hlen =>
      cases hpush
      have hrefuse := step_check_empty hcheck hrunning (List.length_eq_zero_iff.mp hlen)
      exact ⟨1, _, run_cons_eq_some.mpr ⟨_, hcall, run_cons_eq_some.mpr ⟨_, hrefuse, rfl⟩⟩,
        pushes_setPush_self .., rfl, rfl⟩
    · next hlen =>
      have hpass := step_check_pass hcheck hrunning fun hnil => hlen (by simp [hnil])
      split at hpush
      · cases hpush
      · cases hpush
      · next c hsend =>
        cases hpush
        have hsend' := send_of_queue (i := i) hsend
        have henqueue := step_send (pushes_setPush_self (s.setPush i (.check out)) i (.send out))
          hsend'
        have hrun := run_cons_eq_some.mpr ⟨_, hcall, run_cons_eq_some.mpr ⟨_, hpass,
          run_cons_eq_some.mpr ⟨_, henqueue,
            run_cons_eq_some.mpr ⟨_, step_sent (pushes_setPush_self ..), run_nil _⟩⟩⟩⟩
        refine ⟨3, _, hrun, pushes_setPush_self .., rfl, ?_⟩
        show (s.sendChan.buf ++ [(i, out)]).map Prod.snd = s.sendChan.buf.map Prod.snd ++ [out]
        simp

end RunPush

end WorkerRun

/-! ## Which workers are pushed to -/

section Targets

variable {τ : Type} {joinUnsimilar : Option Err → Err → Err}
  {push : τ → Worker → Option (Option Err × τ)}

/-- The session has this color and this server id. -/
def InChannel (color : String) (sid : Int64) (w : Worker) : Bool :=
  match w.session with
  | none => false
  | some ss => ss.color = color ∧ ss.sid = sid

/-- The function of `Broadcast` pushes to the workers of the channel and goes on. -/
theorem visit_broadcastVisit (color : String) (sid : Int64) {ws : List Worker}
    (hsession : ∀ w ∈ ws, w.session.isSome) (st : Option Err × τ) :
    (visit (broadcastVisit joinUnsimilar push color sid) (some st) ws).1 =
      pushAll joinUnsimilar push (ws.filter (InChannel color sid)) st := by
  induction ws generalizing st with
  | nil => rfl
  | cons w ws ih =>
    have ih' := ih fun w' hw' => hsession w' (List.mem_cons_of_mem _ hw')
    obtain ⟨ss, hss⟩ := Option.isSome_iff_exists.mp (hsession w List.mem_cons_self)
    rw [visit_cons]
    by_cases hin : ss.color = color ∧ ss.sid = sid
    · have hchannel : InChannel color sid w = true := by simp [InChannel, hss, hin]
      have hmatch : ¬(ss.color ≠ color ∨ ss.sid ≠ sid) := by simp [hin]
      rw [List.filter_cons_of_pos hchannel, pushAll_cons]
      cases hnext : pushNext joinUnsimilar push st w with
      | none => simp [broadcastVisit, hss, hmatch, hnext]
      | some st' => simpa [broadcastVisit, hss, hmatch, hnext] using ih' st'
    · have hchannel : ¬InChannel color sid w = true := by simpa [InChannel, hss] using hin
      have hmatch : ss.color ≠ color ∨ ss.sid ≠ sid := by
        by_contra hno
        exact hin (by simpa using hno)
      rw [List.filter_cons_of_neg hchannel]
      simpa [broadcastVisit, hss, hmatch] using ih' st

/-- A running server with a pack to send pushes to the targets and returns nil. -/
theorem multicast_eq (r : Registry) (order : RangeOrder Int64 Worker) (uids : List Int64)
    {pack : Pack} (hpack : pack ≠ []) (t : τ) :
    multicast joinUnsimilar push false r order uids pack t =
      (pushAll joinUnsimilar push ((order.visits (getByUIDs r.idx r.manager uids)).map Prod.snd)
        (none, t)).map fun st => (none, st.2) := by
  rw [multicast, if_neg (by simp), if_neg (by simpa using hpack)]
  simp only
  split
  · next heq => rw [heq]; rfl
  · next heq => rw [heq]; rfl

/-- A running server with a pack to send pushes to the channel and returns nil. -/
theorem broadcast_eq (r : Registry) (order : Nat → RangeOrder UInt64 Worker) (color : String)
    (sid : Int64) {pack : Pack} (hpack : pack ≠ []) (t : τ)
    (hsession : ∀ w ∈ r.manager.enumeration order, w.session.isSome) :
    broadcast joinUnsimilar push false r order color sid pack t =
      (pushAll joinUnsimilar push ((r.manager.enumeration order).filter (InChannel color sid))
        (none, t)).map fun st => (none, st.2) := by
  rw [broadcast, if_neg (by simp), if_neg (by simpa using hpack), WorkerManager.walk_eq,
    visit_broadcastVisit color sid hsession]
  split
  · next heq => rw [heq]; rfl
  · next heq => rw [heq]; rfl

end Targets

/-! ## Every target has the pack once -/

/-- The queues of all workers. -/
abbrev Queues := Worker → SendQueue

/-- `w.Push(ctx, pack)` on the queues. -/
def pushQueue (pack : Pack) (qs : Queues) (w : Worker) : Option (Option Err × Queues) :=
  match (qs w).push pack with
  | none => none
  | some (err, q) => some (err, Function.update qs w q)

/-- The targets that are not stopping have the pack once more in their queues; nothing else. -/
structure Delivered (pack : Pack) (Target : Worker → Prop) (qs qs' : Queues) : Prop where
  enqueued : ∀ w, Target w → (qs w).stopping = false → qs' w = (qs w).enqueue pack
  others : ∀ w, ¬(Target w ∧ (qs w).stopping = false) → qs' w = qs w

theorem delivered_nil (pack : Pack) (qs : Queues) : Delivered pack (· ∈ []) qs qs :=
  ⟨fun _ h => absurd h List.not_mem_nil, fun _ _ => rfl⟩

/-- What is pushed to one worker and then to others is delivered to all of them. -/
theorem Delivered.cons {pack : Pack} {w : Worker} {ws : List Worker} {qs qs' : Queues}
    {q : SendQueue} (h : Delivered pack (· ∈ ws) (Function.update qs w q) qs') (hw : w ∉ ws)
    (hq : q = if (qs w).stopping = false then (qs w).enqueue pack else qs w) :
    Delivered pack (· ∈ w :: ws) qs qs' := by
  have hself : qs' w = q := by
    rw [h.others w fun hc => hw hc.1, Function.update_self]
  constructor
  · intro w' hw' hrunning
    rcases List.mem_cons.mp hw' with rfl | hw'
    · rw [hself, hq, if_pos hrunning]
    · have hne : w' ≠ w := fun he => hw (he ▸ hw')
      have := h.enqueued w' hw' (by rwa [Function.update_of_ne hne])
      rwa [Function.update_of_ne hne] at this
  · intro w' hno
    by_cases hne : w' = w
    · subst hne
      have hstopping : ¬(qs w').stopping = false := fun hs => hno ⟨List.mem_cons_self, hs⟩
      rw [hself, hq, if_neg hstopping]
    · have := h.others w' fun hc => hno ⟨List.mem_cons_of_mem _ hc.1,
        by rw [Function.update_of_ne hne] at hc; exact hc.2⟩
      rwa [Function.update_of_ne hne] at this

/-- **Pushed to distinct workers with room, a pack is delivered to each of them.** -/
theorem pushAll_queues (joinUnsimilar : Option Err → Err → Err) {pack : Pack} (hpack : pack ≠ [])
    {ws : List Worker} (hws : ws.Nodup) {qs : Queues} (hroom : ∀ w ∈ ws, (qs w).HasRoom)
    (err : Option Err) :
    ∃ err' qs', pushAll joinUnsimilar (pushQueue pack) ws (err, qs) = some (err', qs') ∧
      Delivered pack (· ∈ ws) qs qs' := by
  induction ws generalizing qs err with
  | nil => exact ⟨err, qs, rfl, delivered_nil pack qs⟩
  | cons w ws ih =>
    obtain ⟨hw, hws'⟩ := List.nodup_cons.mp hws
    -- the queues of the workers that are still to come are as they were
    have hroom' : ∀ q, ∀ w' ∈ ws, (Function.update qs w q w').HasRoom := by
      intro q w' hw'
      have hne : w' ≠ w := fun he => hw (he ▸ hw')
      rw [Function.update_of_ne hne]
      exact hroom w' (List.mem_cons_of_mem _ hw')
    rw [pushAll_cons]
    cases hstop : (qs w).stopping with
    | true =>
      obtain ⟨err', qs', heq, hdel⟩ := ih hws' (hroom' (qs w))
        (some (joinUnsimilar err (.new "worker is stopping")))
      refine ⟨err', qs', ?_, hdel.cons hw (by simp [hstop])⟩
      simpa [pushNext, pushQueue, SendQueue.push_stopping hstop] using heq
    | false =>
      have hpush := SendQueue.push_running hstop (hroom w List.mem_cons_self) hpack
      obtain ⟨err', qs', heq, hdel⟩ := ih hws' (hroom' ((qs w).enqueue pack)) err
      refine ⟨err', qs', ?_, hdel.cons hw (by simp [hstop])⟩
      simpa [pushNext, pushQueue, hpush] using heq

theorem Delivered.congr {pack : Pack} {Target Target' : Worker → Prop} {qs qs' : Queues}
    (h : Delivered pack Target qs qs') (hT : ∀ w, Target w ↔ Target' w) :
    Delivered pack Target' qs qs' :=
  ⟨fun w hw => h.enqueued w ((hT w).mpr hw),
    fun w hw => h.others w fun hc => hw ⟨(hT w).mp hc.1, hc.2⟩⟩

namespace Registry

/-- The workers that `Multicast` is for. -/
def MulticastTarget (r : Registry) (uids : List Int64) (w : Worker) : Prop :=
  ∃ uid ∈ uids, getByUID r.idx r.manager uid = some w

/-- The workers that `Broadcast` is for. -/
def BroadcastTarget (r : Registry) (color : String) (sid : Int64) (w : Worker) : Prop :=
  (∃ wid, r.worker wid = some w) ∧ InChannel color sid w = true

theorem BatchAgrees.mem_visits {r : Registry} (h : r.BatchAgrees)
    {order : RangeOrder Int64 Worker} {uids : List Int64} {w : Worker} :
    w ∈ (order.visits (getByUIDs r.idx r.manager uids)).map Prod.snd ↔
      r.MulticastTarget uids w := by
  constructor
  · intro hw
    obtain ⟨⟨uid, w'⟩, he, rfl⟩ := List.mem_map.mp hw
    have hlookup := (h uids uid).symm.trans (RangeOrder.mem_visits.mp he)
    obtain ⟨huid, hget⟩ := Option.ite_none_right_eq_some.mp hlookup
    exact ⟨uid, huid, hget⟩
  · rintro ⟨uid, huid, hget⟩
    refine List.mem_map.mpr ⟨(uid, w), RangeOrder.mem_visits.mpr ((h uids uid).trans ?_), rfl⟩
    rw [if_pos huid, hget]

/-- The result map has no worker twice, since each is under its own user. -/
theorem nodup_visits_getByUIDs (r : Registry) (order : RangeOrder Int64 Worker)
    (uids : List Int64) :
    ((order.visits (getByUIDs r.idx r.manager uids)).map Prod.snd).Nodup := by
  refine List.Nodup.of_map Worker.uid ?_
  rw [List.map_map]
  have hkeys : (order.visits (getByUIDs r.idx r.manager uids)).map (Worker.uid ∘ Prod.snd) =
      (order.visits (getByUIDs r.idx r.manager uids)).map Prod.fst := by
    refine List.map_congr_left fun e he => ?_
    exact ((gathers_getByUIDs r.idx r.manager uids).sound e.1 e.2
      (RangeOrder.mem_visits.mp he)).2
  rw [hkeys]
  exact order.nodup_keys _

theorem mem_filter_enumeration {r : Registry} (h : r.manager.Sharded)
    {order : Nat → RangeOrder UInt64 Worker} {color : String} {sid : Int64} {w : Worker} :
    w ∈ (r.manager.enumeration order).filter (InChannel color sid) ↔
      r.BroadcastTarget color sid w := by
  rw [List.mem_filter, h.mem_enumeration]
  refine and_congr_left fun _ => ⟨fun hw => ⟨w.id, hw⟩, ?_⟩
  rintro ⟨wid, hw⟩
  rw [h.id_eq hw]
  exact hw

/-- What the two functions of a server do to the queues; a stopping server does nothing. -/
structure FansOut (joinUnsimilar : Option Err → Err → Err) (pack : Pack) (qs : Queues)
    (r : Registry) : Prop where
  multicast : ∀ order uids, ∃ err qs',
    multicast joinUnsimilar (pushQueue pack) false r order uids pack qs = some (err, qs') ∧
      Delivered pack (r.MulticastTarget uids) qs qs'
  broadcast : ∀ order color sid, ∃ err qs',
    broadcast joinUnsimilar (pushQueue pack) false r order color sid pack qs = some (err, qs') ∧
      Delivered pack (r.BroadcastTarget color sid) qs qs'
  stopping : ∀ order order' uids color sid,
    Internal.multicast joinUnsimilar (pushQueue pack) true r order uids pack qs =
        some (some errIsStopped, qs) ∧
      Internal.broadcast joinUnsimilar (pushQueue pack) true r order' color sid pack qs =
        some (some errIsStopped, qs)

theorem SpeaksOf.fansOut {known : List Worker} {r : Registry} (h : SpeaksOf known r)
    (hids : ∀ w ∈ known, ∀ w' ∈ known, w.id = w'.id → w = w')
    (hsession : ∀ w ∈ known, w.session.isSome) (joinUnsimilar : Option Err → Err → Err)
    {pack : Pack} (hpack : pack ≠ []) {qs : Queues} (hroom : ∀ w, (qs w).HasRoom) :
    FansOut joinUnsimilar pack qs r := by
  have hagrees := (h.indexTruthful hids).batchAgrees
  refine ⟨fun order uids => ?_, fun order color sid => ?_, fun _ _ _ _ _ => ⟨rfl, rfl⟩⟩
  · obtain ⟨err, qs', heq, hdel⟩ := pushAll_queues joinUnsimilar hpack
      (nodup_visits_getByUIDs r order uids) (fun w _ => hroom w) none
    refine ⟨none, qs', ?_, hdel.congr fun w => hagrees.mem_visits⟩
    rw [multicast_eq r order uids hpack, heq]
    rfl
  · have hsome : ∀ w ∈ r.manager.enumeration order, w.session.isSome := fun w hw =>
      hsession w (h.registered _ w (h.sharded.mem_enumeration.mp hw))
    obtain ⟨err, qs', heq, hdel⟩ := pushAll_queues joinUnsimilar hpack
      ((h.sharded.nodup_enumeration order).filter (InChannel color sid)) (fun w _ => hroom w) none
    refine ⟨none, qs', ?_, hdel.congr fun w => mem_filter_enumeration h.sharded⟩
    rw [broadcast_eq r order color sid hpack qs hsome, heq]
    rfl

/--
**In every state that calls of `Put` and `Del` lead to, `Multicast` and `Broadcast` enqueue the pack
once on each of their targets that is not stopping, and change no other queue.** A worker that is
put has been through the handshake, so it has a session.
-/
theorem fan_out_reaches_targets (joinUnsimilar : Option Err → Err → Err) (c : BucketConf)
    (ops : List RegistryOp) (hids : IdsIdentify ops)
    (hsession : ∀ w ∈ putWorkers ops, w.session.isSome) :
    EachState step (fun r => ∀ pack qs, pack ≠ [] → (∀ w, SendQueue.HasRoom (qs w)) →
      FansOut joinUnsimilar pack qs r) (init c) ops :=
  eachState_of_speaksOf c ops fun _ h _ _ hpack hroom =>
    h.fansOut hids hsession joinUnsimilar hpack hroom

/-- Two users in three buckets, and queues with room for four packs. -/
theorem fan_out_two_users :
    ∃ r, Lib.run step (init ⟨3, by decide⟩)
        [.put ⟨0, 16, some { uid := 7 }⟩, .put ⟨1, 32, some { uid := 9 }⟩] = some r ∧
      FansOut Err.joinTo [1] (fun _ => ⟨false, Chan.make 4, fun _ => rfl⟩) r := by
  refine ⟨_, rfl, ?_⟩
  have h := fan_out_reaches_targets Err.joinTo ⟨3, by decide⟩
    [.put ⟨0, 16, some { uid := 7 }⟩, .put ⟨1, 32, some { uid := 9 }⟩] (by decide) (by decide)
  obtain ⟨-, h₁⟩ := h.2 _ rfl
  obtain ⟨hfans, -⟩ := h₁ _ rfl
  exact hfans [1] _ (by decide) fun _ _ => by decide

end Registry

/-! ## Errors are not reported -/

/-- `w.Push(ctx, pack)` with these outcomes; the state is the list of the calls. -/
def pushOutcome (outcome : Worker → Option Err) (calls : List (Worker × Option Err)) (w : Worker) :
    Option (Option Err × List (Worker × Option Err)) :=
  some (outcome w, calls ++ [(w, outcome w)])

/-- The call returns, and returns nil exactly when every `Push` that it has made has. -/
def Reports (result : Option (Option Err × List (Worker × Option Err))) : Prop :=
  ∃ err calls, result = some (err, calls) ∧ (err = none ↔ ∀ c ∈ calls, c.2 = none)

theorem pushAll_outcome (joinUnsimilar : Option Err → Err → Err) (outcome : Worker → Option Err)
    (ws : List Worker) (err : Option Err) (calls : List (Worker × Option Err)) :
    ∃ err', pushAll joinUnsimilar (pushOutcome outcome) ws (err, calls) =
      some (err', calls ++ ws.map fun w => (w, outcome w)) := by
  induction ws generalizing err calls with
  | nil => exact ⟨err, by simp [pushAll]⟩
  | cons w ws ih =>
    have hnext : ∃ err₁, pushNext joinUnsimilar (pushOutcome outcome) (err, calls) w =
        some (err₁, calls ++ [(w, outcome w)]) := by
      unfold pushNext pushOutcome
      cases outcome w with
      | none => exact ⟨err, rfl⟩
      | some e => exact ⟨some (joinUnsimilar err e), rfl⟩
    obtain ⟨err₁, hnext⟩ := hnext
    obtain ⟨err', heq⟩ := ih err₁ (calls ++ [(w, outcome w)])
    refine ⟨err', ?_⟩
    rw [pushAll_cons, hnext]
    simpa using heq

/-- The errors that have been joined do not matter. -/
theorem reports_map_none (joinUnsimilar : Option Err → Err → Err) (outcome : Worker → Option Err)
    (ws : List Worker) :
    Reports ((pushAll joinUnsimilar (pushOutcome outcome) ws (none, [])).map
      fun st => (none, st.2)) ↔ ∀ w ∈ ws, outcome w = none := by
  obtain ⟨err, heq⟩ := pushAll_outcome joinUnsimilar outcome ws none []
  rw [heq]
  constructor
  · rintro ⟨err', calls, hres, hiff⟩
    cases hres
    simpa using hiff
  · intro hall
    exact ⟨none, _, rfl, by simpa using hall⟩

namespace Registry

/--
**`Multicast` and `Broadcast` report what has happened exactly when no `Push` to a target fails.**
When one does, the result is nil all the same.
-/
theorem fan_out_reports_iff (joinUnsimilar : Option Err → Err → Err) (r : Registry)
    (outcome : Worker → Option Err) {pack : Pack} (hpack : pack ≠ []) :
    (∀ order uids,
      Reports (multicast joinUnsimilar (pushOutcome outcome) false r order uids pack []) ↔
        ∀ uid w, (getByUIDs r.idx r.manager uids).lookup uid = some w → outcome w = none) ∧
    ∀ order color sid, (∀ w ∈ r.manager.enumeration order, w.session.isSome) →
      (Reports (broadcast joinUnsimilar (pushOutcome outcome) false r order color sid pack []) ↔
        ∀ w ∈ r.manager.enumeration order, InChannel color sid w = true → outcome w = none) := by
  constructor
  · intro order uids
    rw [multicast_eq r order uids hpack, reports_map_none]
    constructor
    · intro hall uid w hw
      exact hall w (List.mem_map.mpr ⟨(uid, w), RangeOrder.mem_visits.mpr hw, rfl⟩)
    · intro hall w hw
      obtain ⟨⟨uid, w'⟩, he, rfl⟩ := List.mem_map.mp hw
      exact hall uid w' (RangeOrder.mem_visits.mp he)
  · intro order color sid hsession
    rw [broadcast_eq r order color sid hpack [] hsession, reports_map_none]
    simp

/-- One user with one worker, whose `Push` succeeds. -/
theorem fan_out_reports_success :
    ∃ r, Lib.run step (init ⟨1, by decide⟩) [.put ⟨0, 16, some { uid := 7 }⟩] = some r ∧
      Reports (multicast Err.joinTo (pushOutcome fun _ => none) false r .entries [7] [1] []) ∧
      Reports (broadcast Err.joinTo (pushOutcome fun _ => none) false r (fun _ => .entries) "" 0
        [1] []) := by
  refine ⟨_, rfl, ?_, ?_⟩
  · exact ((fan_out_reports_iff Err.joinTo _ (fun _ => none) (by decide)).1 _ _).mpr
      fun _ _ _ => rfl
  · exact ((fan_out_reports_iff Err.joinTo _ (fun _ => none) (by decide)).2 _ _ _
      (by decide +kernel)).mpr fun _ _ _ => rfl

/-- One user with one worker that is stopping: its `Push` fails, and both functions return nil. -/
theorem fan_out_loses_error :
    let w : Worker := ⟨0, 16, some { uid := 7 }⟩
    let err : Err := .new "worker is stopping"
    let qs : Queues := fun _ => ⟨true, Chan.make 4, nofun⟩
    ∃ r, Lib.run step (init ⟨1, by decide⟩) [.put w] = some r ∧
      (qs w).push [1] = some (some err, qs w) ∧
      (multicast Err.joinTo (pushQueue [1]) false r .entries [7] [1] qs).map Prod.fst = some none ∧
      (broadcast Err.joinTo (pushQueue [1]) false r (fun _ => .entries) "" 0 [1] qs).map Prod.fst =
        some none ∧
      ¬Reports (multicast Err.joinTo (pushOutcome fun _ => some err) false r .entries [7] [1] []) ∧
      ¬Reports (broadcast Err.joinTo (pushOutcome fun _ => some err) false r (fun _ => .entries) ""
        0 [1] []) := by
  intro w err qs
  have hlost : ∀ {result}, result = some (none, [(w, some err)]) → ¬Reports result := by
    rintro _ rfl ⟨err', calls, heq, hiff⟩
    cases heq
    exact absurd (hiff.mp rfl (w, some err) (by simp)) (by simp)
  exact ⟨_, rfl, rfl, by decide +kernel, by decide +kernel, hlost (by decide +kernel),
    hlost (by decide +kernel)⟩

end Registry

end FabricaNet.Internal
