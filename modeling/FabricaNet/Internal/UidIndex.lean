import FabricaNet.Internal.WorkerManager
import FabricaNet.Lib.Run

/-!
# The uid index over runs of `Put` and `Del`

One manager, alone in its process, and any sequence of `Put` and `Del` calls on it.

`Del` deletes the index entry under the worker id as a `uint64`, while `Put` stored it under the
user id as an `int64`. So no entry is ever deleted, and an entry goes away only when a later `Put`
of the same user overwrites it. Two properties depend on that:

* `NoStale` — every entry leads to a registered worker of that user (`eachState_noStale_iff`)
* `UsersFound` — a user with a registered worker is found by `GetByUID`
  (`eachState_usersFound_iff`)

Both hold along a run exactly as long as its `Del` calls keep away from certain workers.
-/

namespace FabricaNet.Internal

open Go Lib

/-- The state that `Put`, `Del` and `GetByUID` share: the index and one manager. -/
structure Registry where
  idx : UidWidMap
  manager : WorkerManager

/-- A call on the manager. -/
inductive RegistryOp where
  | put (w : Worker)
  | del (wid : UInt64)
deriving DecidableEq, Repr

namespace Registry

/-- A manager that `newWorkerManager` has just built, in a process with an empty index. -/
def init (c : BucketConf) : Registry :=
  { idx := SyncMap.empty, manager := newWorkerManager c }

/-- The registry after a call. Every call returns. -/
def step (r : Registry) : RegistryOp → Option Registry
  | .put w =>
    let (_, idx, manager) := put r.idx r.manager w
    some { idx := idx, manager := manager }
  | .del wid =>
    let (idx, manager) := del r.idx r.manager wid
    some { idx := idx, manager := manager }

/-- The worker registered under the id. -/
abbrev worker (r : Registry) (wid : UInt64) : Option Worker := r.manager.worker wid

/-! ## What a call does to the two maps -/

/-- `Put` of a worker whose id is taken changes neither map. -/
theorem step_put_taken {r r' : Registry} {w old : Worker} (h : r.step (.put w) = some r')
    (hw : r.worker w.id = some old) :
    (∀ k, r'.idx.load k = r.idx.load k) ∧ ∀ wid, r'.worker wid = r.worker wid := by
  simp only [step, put_of_taken r.idx hw, Option.some.injEq] at h
  subst h
  refine ⟨fun _ => rfl, fun wid => ?_⟩
  show (r.manager.putBucket w).2.worker wid = r.worker wid
  rw [WorkerManager.worker_putBucket, show r.manager.worker w.id = some old from hw]
  split
  · next hwid => rw [hwid]; exact hw.symm
  · rfl

/-- `Put` of a worker whose id is free writes both maps. -/
theorem step_put_free {r r' : Registry} {w : Worker} (h : r.step (.put w) = some r')
    (hw : r.worker w.id = none) :
    (∀ k, r'.idx.load k = if k = .int64 w.uid then some w.id else r.idx.load k) ∧
      ∀ wid, r'.worker wid = if wid = w.id then some w else r.worker wid := by
  simp only [step, put_of_free r.idx hw, Option.some.injEq] at h
  subst h
  refine ⟨load_storeIndex r.idx w, fun wid => ?_⟩
  show ((r.manager.putBucket w).2.addSize 1).worker wid = _
  rw [WorkerManager.worker_addSize, WorkerManager.worker_putBucket,
    show r.manager.worker w.id = none from hw]
  rfl

/-- `Del` empties the place of the id and leaves every entry of a user in the index. -/
theorem step_del {r r' : Registry} {wid : UInt64} (h : r.step (.del wid) = some r') :
    (∀ uid, r'.idx.load (.int64 uid) = r.idx.load (.int64 uid)) ∧
      (∀ k, r'.idx.load (.uint64 k) = if k = wid then none else r.idx.load (.uint64 k)) ∧
      ∀ wid', r'.worker wid' = if wid' = wid then none else r.worker wid' := by
  simp only [step, del, Option.some.injEq] at h
  subst h
  refine ⟨fun uid => ?_, fun k => ?_, fun wid' => ?_⟩
  · exact load_deleteIndex_int64 r.idx wid uid
  · show (deleteIndex r.idx wid).load _ = _
    unfold deleteIndex
    rw [SyncMap.load_delete]
    simp only [Key.uint64.injEq]
  · rw [worker, WorkerManager.worker_addSize]
    exact WorkerManager.worker_delBucket r.manager wid wid'

/-! ## Stale entries -/

/-- Every entry of the index leads to a registered worker of that user. -/
def NoStale (r : Registry) : Prop :=
  ∀ k wid, r.idx.load k = some wid → ∃ w, k = .int64 w.uid ∧ r.worker wid = some w

/-- No entry is left once every worker is gone. -/
def EmptyWhenAllGone (r : Registry) : Prop :=
  (∀ wid, r.worker wid = none) → ∀ k, r.idx.load k = none

theorem NoStale.emptyWhenAllGone {r : Registry} (h : NoStale r) : EmptyWhenAllGone r := by
  intro hgone k
  cases hk : r.idx.load k with
  | none => rfl
  | some wid =>
    obtain ⟨w, -, hw⟩ := h k wid hk
    rw [hgone wid] at hw
    cases hw

theorem noStale_init (c : BucketConf) : NoStale (init c) := by
  intro k wid hk
  have hnone : (init c).idx.load k = none := SyncMap.load_empty k
  rw [hnone] at hk
  cases hk

/-- `Put` keeps the index free of stale entries. -/
theorem NoStale.put {r r' : Registry} {w : Worker} (hr : NoStale r)
    (h : r.step (.put w) = some r') : NoStale r' := by
  cases hw : r.worker w.id with
  | some old =>
    obtain ⟨hidx, hwk⟩ := step_put_taken h hw
    intro k wid hk
    rw [hidx k] at hk
    rw [hwk wid]
    exact hr k wid hk
  | none =>
    obtain ⟨hidx, hwk⟩ := step_put_free h hw
    intro k wid hk
    rw [hidx k] at hk
    split at hk
    · next hkey =>
      cases hk
      exact ⟨w, hkey, by rw [hwk, if_pos rfl]⟩
    · obtain ⟨w', hkey, hw'⟩ := hr k wid hk
      refine ⟨w', hkey, ?_⟩
      rw [hwk, if_neg ?_]
      · exact hw'
      · intro he
        rw [he, hw] at hw'
        cases hw'

/-- `Del` of an id that no entry leads to keeps the index free of stale entries. -/
theorem NoStale.del {r r' : Registry} {wid : UInt64} (hr : NoStale r)
    (h : r.step (.del wid) = some r') (hwid : ∀ uid, r.idx.load (.int64 uid) ≠ some wid) :
    NoStale r' := by
  obtain ⟨hint, huint, hwk⟩ := step_del h
  intro k wid' hk
  cases k with
  | int64 uid =>
    rw [hint] at hk
    obtain ⟨w, hkey, hw⟩ := hr _ wid' hk
    refine ⟨w, hkey, ?_⟩
    rw [hwk, if_neg ?_]
    · exact hw
    · intro he
      exact hwid uid (he ▸ hk)
  | uint64 k =>
    rw [huint] at hk
    split at hk
    · cases hk
    · obtain ⟨w, hkey, -⟩ := hr _ wid' hk
      cases hkey

/-- `Del` of an id that an entry leads to leaves that entry behind. -/
theorem not_noStale_of_del {r r' : Registry} {wid : UInt64} (uid : Int64)
    (h : r.step (.del wid) = some r') (hwid : r.idx.load (.int64 uid) = some wid) :
    ¬ NoStale r' := by
  intro hr'
  obtain ⟨hint, -, hwk⟩ := step_del h
  obtain ⟨w, -, hw⟩ := hr' (.int64 uid) wid (by rw [hint]; exact hwid)
  rw [hwk, if_pos rfl] at hw
  cases hw

/-- A `Del` that no entry of the index leads to. -/
def DelsUnindexed (r : Registry) (op : RegistryOp) : Prop :=
  ∀ wid, op = .del wid → ∀ uid, r.idx.load (.int64 uid) ≠ some wid

/--
**The index is free of stale entries along a run exactly when every `Del` of the run is of a worker
id that the index does not lead to.** So the first `Del` of a user's latest worker leaves an entry
that nothing removes.
-/
theorem eachState_noStale_iff (c : BucketConf) (ops : List RegistryOp) :
    EachState step (fun r => NoStale r ∧ EmptyWhenAllGone r) (init c) ops ↔
      EachStep step (fun r op _ => DelsUnindexed r op) (init c) ops := by
  refine eachState_iff (I := fun r _ => NoStale r) ?_ ?_ (noStale_init c)
    ⟨noStale_init c, (noStale_init c).emptyWhenAllGone⟩
  · intro r op r' _ hr h hC
    have hr' : NoStale r' := by
      cases op with
      | put w => exact hr.put h
      | del wid => exact hr.del h (hC wid rfl)
    exact ⟨⟨hr', hr'.emptyWhenAllGone⟩, hr'⟩
  · intro r op r' _ _ h hQ wid hop uid huid
    subst hop
    exact not_noStale_of_del _ h huid hQ.1

/-- The worker ids that the calls register. -/
def putIds (ops : List RegistryOp) : List UInt64 :=
  ops.filterMap fun
    | .put w => some w.id
    | .del _ => none

/-- One user connects and leaves: the entry for user 7 stays in the index. -/
theorem noStale_fails_after_del :
    let ops := [RegistryOp.put ⟨0, 16, some { uid := 7 }⟩, .del 16]
    (putIds ops).Nodup ∧
      ¬ EachState step (fun r => NoStale r ∧ EmptyWhenAllGone r) (init ⟨1, by decide⟩) ops := by
  refine ⟨by decide, fun h => ?_⟩
  obtain ⟨-, hdel⟩ := h.2 _ rfl
  exact not_noStale_of_del 7 rfl (by decide) (hdel _ rfl).1.1

/-! ## Users that stay reachable -/

/-- A user with a registered worker is found, and the worker found is a registered one of theirs. -/
def UsersFound (r : Registry) : Prop :=
  ∀ wid w, r.worker wid = some w →
    ∃ wid' w', getByUID r.idx r.manager w.uid = some w' ∧ r.worker wid' = some w' ∧ w'.uid = w.uid

theorem getByUID_eq_some {r : Registry} {uid : Int64} {w : Worker} :
    getByUID r.idx r.manager uid = some w ↔
      ∃ wid, r.idx.load (.int64 uid) = some wid ∧ r.worker wid = some w := by
  unfold getByUID
  cases r.idx.load (.int64 uid) with
  | none => simp
  | some wid => simp

/-- `UsersFound` in terms of the two maps. -/
theorem usersFound_iff {r : Registry} :
    UsersFound r ↔ ∀ wid w, r.worker wid = some w →
      ∃ wid' w', r.idx.load (.int64 w.uid) = some wid' ∧ r.worker wid' = some w' ∧
        w'.uid = w.uid := by
  constructor
  · intro h wid w hw
    obtain ⟨_, w', hget, -, huid⟩ := h wid w hw
    obtain ⟨wid', hidx, hw'⟩ := getByUID_eq_some.mp hget
    exact ⟨wid', w', hidx, hw', huid⟩
  · intro h wid w hw
    obtain ⟨wid', w', hidx, hw', huid⟩ := h wid w hw
    exact ⟨wid', w', getByUID_eq_some.mpr ⟨wid', hidx, hw'⟩, hw', huid⟩

/-- The ids still to be registered are new: not registered, and not in the index. -/
def FreshIds (r : Registry) (ops : List RegistryOp) : Prop :=
  (putIds ops).Nodup ∧
    ∀ wid ∈ putIds ops, r.worker wid = none ∧ ∀ uid, r.idx.load (.int64 uid) ≠ some wid

theorem freshIds_init (c : BucketConf) {ops : List RegistryOp} (h : (putIds ops).Nodup) :
    FreshIds (init c) ops := by
  refine ⟨h, fun wid _ => ⟨WorkerManager.worker_newWorkerManager c wid, fun uid hidx => ?_⟩⟩
  rw [show (init c).idx.load (.int64 uid) = none from SyncMap.load_empty _] at hidx
  cases hidx

theorem FreshIds.put {r r' : Registry} {w : Worker} {ops : List RegistryOp}
    (hf : FreshIds r (.put w :: ops)) (h : r.step (.put w) = some r') : FreshIds r' ops := by
  obtain ⟨hnd, hnew⟩ := hf
  rw [show putIds (.put w :: ops) = w.id :: putIds ops from rfl] at hnd hnew
  obtain ⟨hidx, hwk⟩ := step_put_free h (hnew w.id (by simp)).1
  have hne : ∀ wid ∈ putIds ops, wid ≠ w.id := by
    intro wid hwid he
    exact (List.nodup_cons.mp hnd).1 (he ▸ hwid)
  refine ⟨(List.nodup_cons.mp hnd).2, fun wid hwid => ⟨?_, fun uid hload => ?_⟩⟩
  · rw [hwk, if_neg (hne wid hwid)]
    exact (hnew wid (List.mem_cons_of_mem _ hwid)).1
  · rw [hidx] at hload
    split at hload
    · exact hne wid hwid (Option.some.inj hload).symm
    · exact (hnew wid (List.mem_cons_of_mem _ hwid)).2 uid hload

theorem FreshIds.del {r r' : Registry} {wid : UInt64} {ops : List RegistryOp}
    (hf : FreshIds r (.del wid :: ops)) (h : r.step (.del wid) = some r') : FreshIds r' ops := by
  obtain ⟨hnd, hnew⟩ := hf
  obtain ⟨hint, -, hwk⟩ := step_del h
  refine ⟨hnd, fun wid' hwid' => ⟨?_, fun uid => ?_⟩⟩
  · rw [hwk]
    split
    · rfl
    · exact (hnew wid' hwid').1
  · rw [hint]
    exact (hnew wid' hwid').2 uid

/-- `Put` of a worker with a new id makes its user reachable and no other user unreachable. -/
theorem UsersFound.put {r r' : Registry} {w : Worker} (hr : UsersFound r)
    (h : r.step (.put w) = some r') (hfree : r.worker w.id = none)
    (hnew : ∀ uid, r.idx.load (.int64 uid) ≠ some w.id) : UsersFound r' := by
  obtain ⟨hidx, hwk⟩ := step_put_free h hfree
  rw [usersFound_iff] at hr ⊢
  intro wid w₁ hw₁
  by_cases huid : w₁.uid = w.uid
  · exact ⟨w.id, w, by rw [hidx, huid, if_pos rfl], by rw [hwk, if_pos rfl], huid.symm⟩
  · have hold : r.worker wid = some w₁ := by
      rw [hwk] at hw₁
      split at hw₁
      · cases hw₁; exact absurd rfl huid
      · exact hw₁
    obtain ⟨wid', w', hload, hw', huid'⟩ := hr wid w₁ hold
    refine ⟨wid', w', ?_, ?_, huid'⟩
    · rw [hidx, if_neg (by simpa using huid)]
      exact hload
    · rw [hwk, if_neg ?_]
      · exact hw'
      · intro he
        exact hnew _ (he ▸ hload)

/--
A `Del` that is not of a user's latest worker, the one the index leads to, while another worker of
that user is registered.
-/
def DelsNoIndexedTwin (r : Registry) (op : RegistryOp) : Prop :=
  ∀ wid w, op = .del wid → r.worker wid = some w → r.idx.load (.int64 w.uid) = some wid →
    ∀ wid' w', r.worker wid' = some w' → w'.uid = w.uid → wid' = wid

theorem UsersFound.del {r r' : Registry} {wid : UInt64} (hr : UsersFound r)
    (h : r.step (.del wid) = some r') (hC : DelsNoIndexedTwin r (.del wid)) : UsersFound r' := by
  obtain ⟨hint, -, hwk⟩ := step_del h
  rw [usersFound_iff] at hr ⊢
  intro wid₁ w₁ hw₁
  rw [hwk] at hw₁
  split at hw₁
  · cases hw₁
  · next hne =>
    obtain ⟨wid', w', hload, hw', huid'⟩ := hr wid₁ w₁ hw₁
    refine ⟨wid', w', by rw [hint]; exact hload, ?_, huid'⟩
    rw [hwk, if_neg ?_]
    · exact hw'
    · -- the entry leads to the deleted worker, so no other worker of the user may be registered
      intro he
      rw [he] at hload hw'
      exact hne (hC wid w' rfl hw' (by rw [huid']; exact hload) wid₁ w₁ hw₁ huid'.symm)

theorem delsNoIndexedTwin_of_usersFound {r r' : Registry} {op : RegistryOp}
    (h : r.step op = some r') (hr' : UsersFound r') : DelsNoIndexedTwin r op := by
  intro wid w hop hw hload wid' w' hw' huid
  subst hop
  obtain ⟨hint, -, hwk⟩ := step_del h
  by_contra hne
  obtain ⟨wid₂, w₂, hload₂, hw₂, -⟩ :=
    usersFound_iff.mp hr' wid' w' (by rw [hwk, if_neg hne]; exact hw')
  rw [hint, huid, hload] at hload₂
  cases hload₂
  rw [hwk, if_pos rfl] at hw₂
  cases hw₂

/--
**With distinct worker ids, every connected user stays reachable along a run exactly when no `Del`
of the run removes a user's latest worker while an older one is still registered.** The index keeps
one worker id for each user, and `Del` does not put the older one back.
-/
theorem eachState_usersFound_iff (c : BucketConf) (ops : List RegistryOp)
    (hops : (putIds ops).Nodup) :
    EachState step UsersFound (init c) ops ↔
      EachStep step (fun r op _ => DelsNoIndexedTwin r op) (init c) ops := by
  have hinit : UsersFound (init c) := by
    intro wid w hw
    rw [show (init c).worker wid = none from WorkerManager.worker_newWorkerManager c wid] at hw
    cases hw
  refine eachState_iff (I := fun r ops => UsersFound r ∧ FreshIds r ops) ?_ ?_
    ⟨hinit, freshIds_init c hops⟩ hinit
  · rintro r op r' ops ⟨hr, hf⟩ h hC
    cases op with
    | put w =>
      obtain ⟨hfree, hnew⟩ := hf.2 w.id List.mem_cons_self
      have hr' := hr.put h hfree hnew
      exact ⟨hr', hr', hf.put h⟩
    | del wid =>
      have hr' := hr.del h hC
      exact ⟨hr', hr', hf.del h⟩
  · rintro r op r' ops - h hQ
    exact delsNoIndexedTwin_of_usersFound h hQ

/-- Two workers of user 7, of which the older one leaves. -/
theorem usersFound_older_leaves :
    EachState step UsersFound (init ⟨1, by decide⟩)
      [.put ⟨0, 16, some { uid := 7 }⟩, .put ⟨1, 32, some { uid := 7 }⟩, .del 16] := by
  refine (eachState_usersFound_iff _ _ (by decide)).mpr ?_
  intro r₁ h₁
  refine ⟨fun wid w hop => (by cases hop), fun r₂ h₂ => ?_⟩
  refine ⟨fun wid w hop => (by cases hop), fun r₃ h₃ => ⟨?_, eachStep_nil _ _⟩⟩
  intro wid w hop hw hload
  cases hop
  cases h₁
  cases h₂
  -- the index leads to the younger worker
  have hw' : some (⟨0, 16, some { uid := 7 }⟩ : Worker) = some w := hw
  cases hw'
  exact absurd hload (by decide)

/-- Two workers of user 7, of which the younger one leaves: the older one is not found any more. -/
theorem usersFound_fails_younger_leaves :
    let ops := [RegistryOp.put ⟨0, 16, some { uid := 7 }⟩, .put ⟨1, 32, some { uid := 7 }⟩,
      .del 32]
    (putIds ops).Nodup ∧ ¬ EachState step UsersFound (init ⟨1, by decide⟩) ops := by
  refine ⟨by decide, fun h => ?_⟩
  obtain ⟨-, h₂⟩ := h.2 _ rfl
  obtain ⟨-, h₃⟩ := h₂ _ rfl
  obtain ⟨hfound, -⟩ := h₃ _ rfl
  obtain ⟨_, w', hget, -, -⟩ := hfound 16 ⟨0, 16, some { uid := 7 }⟩ rfl
  have hnone : (none : Option Worker) = some w' := hget
  cases hnone

end Registry

end FabricaNet.Internal
