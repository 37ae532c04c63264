import FabricaNet.Internal.OneMap

/-!
# Batch lookup

`GetByUIDs` looks up the worker ids of all users first, sorts them by bucket and then loads the
workers bucket by bucket. Its result has the workers that `GetByUID` finds for the users of the
list (`gathers_getByUIDs`), in every state of the registry. It is keyed by the user of the worker
found, not by the user that was asked for. The two are the same when the index leads only to workers
of the user (`IndexTruthful`), which holds along every run in which no worker id passes from one
worker to another.
-/

namespace FabricaNet.Internal

open Go Lib

namespace WorkerManager

/-! ## Sorting by bucket -/

variable {m : WorkerManager} {bucketKeys : Vector (List UInt64) m.shardCount.toNat}

theorem mem_addKey {wid wid' : UInt64} {key : Fin m.shardCount.toNat} :
    wid' ∈ (m.addKey bucketKeys wid).get key ↔
      wid' ∈ bucketKeys.get key ∨ wid' = wid ∧ m.bucketIdx wid = key := by
  show wid' ∈ (m.addKey bucketKeys wid)[(key : Nat)] ↔ wid' ∈ bucketKeys[(key : Nat)] ∨ _
  unfold addKey
  rw [Vector.getElem_set]
  by_cases hkey : m.bucketIdx wid = key
  · subst hkey
    simp
  · have hne : (m.bucketIdx wid : Nat) ≠ key := fun he => hkey (Fin.ext he)
    simp [hkey, hne]

/-- No id is lost, and each goes to the list of its bucket. -/
theorem mem_foldl_addKey (wids : List UInt64) {wid : UInt64} {key : Fin m.shardCount.toNat} :
    wid ∈ (wids.foldl m.addKey bucketKeys).get key ↔
      wid ∈ bucketKeys.get key ∨ wid ∈ wids ∧ m.bucketIdx wid = key := by
  induction wids generalizing bucketKeys with
  | nil => simp
  | cons wid' wids ih =>
    rw [List.foldl_cons, ih, mem_addKey, List.mem_cons]
    constructor
    · rintro ((h | ⟨rfl, hkey⟩) | ⟨h, hkey⟩)
      · exact Or.inl h
      · exact Or.inr ⟨Or.inl rfl, hkey⟩
      · exact Or.inr ⟨Or.inr h, hkey⟩
    · rintro (h | ⟨rfl | h, hkey⟩)
      · exact Or.inl (Or.inl h)
      · exact Or.inl (Or.inr ⟨rfl, hkey⟩)
      · exact Or.inr ⟨h, hkey⟩

theorem mem_groupKeys {wids : List UInt64} {wid : UInt64} {key : Fin m.shardCount.toNat} :
    wid ∈ (m.groupKeys wids).get key ↔ wid ∈ wids ∧ m.bucketIdx wid = key := by
  have hnil : (Vector.replicate m.shardCount.toNat ([] : List UInt64)).get key = [] :=
    Vector.getElem_replicate key.isLt
  rw [groupKeys, mem_foldl_addKey, hnil]
  simp

end WorkerManager

/-! ## Gathering the workers -/

/-- The result has workers with the property only, under their users, and one for each user. -/
structure Gathers (result : WorkerMap) (P : Worker → Prop) : Prop where
  sound : ∀ uid w, result.lookup uid = some w → P w ∧ w.uid = uid
  complete : ∀ w, P w → ∃ w', result.lookup w.uid = some w'

namespace Gathers

variable {result : WorkerMap} {P Q : Worker → Prop}

theorem empty : Gathers ∅ fun _ => False :=
  ⟨fun uid w hw => by simp at hw, fun _ h => h.elim⟩

theorem congr (h : Gathers result P) (hPQ : ∀ w, P w ↔ Q w) : Gathers result Q :=
  ⟨fun uid w hw => ⟨(hPQ w).mp (h.sound uid w hw).1, (h.sound uid w hw).2⟩,
    fun w hw => h.complete w ((hPQ w).mpr hw)⟩

theorem insert (h : Gathers result P) (w : Worker) :
    Gathers (result.insert w.uid w) fun w' => P w' ∨ w' = w := by
  refine ⟨fun uid w' hw' => ?_, fun w' hw' => ?_⟩
  · by_cases huid : uid = w.uid
    · subst huid
      rw [AList.lookup_insert] at hw'
      cases hw'
      exact ⟨Or.inr rfl, rfl⟩
    · rw [AList.lookup_insert_ne huid] at hw'
      obtain ⟨hP, hkey⟩ := h.sound uid w' hw'
      exact ⟨Or.inl hP, hkey⟩
  · by_cases huid : w'.uid = w.uid
    · exact ⟨w, by rw [huid, AList.lookup_insert]⟩
    · rw [AList.lookup_insert_ne huid]
      rcases hw' with hP | rfl
      · exact h.complete w' hP
      · exact absurd rfl huid

theorem addFound (h : Gathers result P) (bucket : SyncMap UInt64 Worker) (wid : UInt64) :
    Gathers (WorkerManager.addFound bucket result wid) fun w => P w ∨ bucket.load wid = some w := by
  unfold WorkerManager.addFound
  cases hload : bucket.load wid with
  | none => exact h.congr fun w => by simp
  | some worker =>
    refine (h.insert worker).congr fun w => ?_
    simp [eq_comm]

theorem foldl_addFound (h : Gathers result P) (bucket : SyncMap UInt64 Worker)
    (wids : List UInt64) :
    Gathers (wids.foldl (WorkerManager.addFound bucket) result)
      fun w => P w ∨ ∃ wid ∈ wids, bucket.load wid = some w := by
  induction wids generalizing result P with
  | nil => exact h.congr fun w => by simp
  | cons wid wids ih =>
    refine (ih (h.addFound bucket wid)).congr fun w => ?_
    simp [or_assoc]

end Gathers

namespace WorkerManager

theorem gathers_collect (m : WorkerManager)
    (bucketKeys : Vector (List UInt64) m.shardCount.toNat) :
    Gathers (m.collect bucketKeys) fun w =>
      ∃ key, ∃ wid ∈ bucketKeys.get key, (m.buckets.get key).load wid = some w := by
  -- the keys that are still to come are generalised, with what has been gathered before them
  have hloop : ∀ (keys : List (Fin m.shardCount.toNat)) (result : WorkerMap) (P : Worker → Prop),
      Gathers result P → Gathers (keys.foldl (fun result key =>
        if (bucketKeys.get key).length = 0 then result
        else (bucketKeys.get key).foldl (addFound (m.buckets.get key)) result) result)
        fun w => P w ∨ ∃ key ∈ keys, ∃ wid ∈ bucketKeys.get key,
          (m.buckets.get key).load wid = some w := by
    intro keys
    induction keys with
    | nil => exact fun result P h => h.congr fun w => by simp
    | cons key keys ih =>
      intro result P h
      rw [List.foldl_cons]
      split
      · next hempty =>
        refine (ih _ _ h).congr fun w => ?_
        rw [List.exists_mem_cons_iff, List.length_eq_zero_iff.mp hempty]
        simp
      · have hfound := h.foldl_addFound (m.buckets.get key) (bucketKeys.get key)
        refine (ih _ _ hfound).congr fun w => ?_
        simp [or_assoc]
  refine (hloop _ _ _ Gathers.empty).congr fun w => ?_
  simp

end WorkerManager

/-- **`GetByUIDs` gathers the workers that `GetByUID` finds for the users of the list.** -/
theorem gathers_getByUIDs (idx : UidWidMap) (m : WorkerManager) (uids : List Int64) :
    Gathers (getByUIDs idx m uids) fun w => ∃ uid ∈ uids, getByUID idx m uid = some w := by
  refine (m.gathers_collect _).congr fun w => ?_
  constructor
  · rintro ⟨key, wid, hwid, hw⟩
    obtain ⟨hmem, rfl⟩ := WorkerManager.mem_groupKeys.mp hwid
    obtain ⟨uid, huid, hidx⟩ := List.mem_filterMap.mp hmem
    refine ⟨uid, huid, ?_⟩
    rw [getByUID, hidx]
    exact hw
  · rintro ⟨uid, huid, hget⟩
    unfold getByUID at hget
    cases hidx : idx.load (.int64 uid) with
    | none =>
      rw [hidx] at hget
      cases hget
    | some wid =>
      rw [hidx] at hget
      have hmem : wid ∈ indexedWids idx uids := List.mem_filterMap.mpr ⟨uid, huid, hidx⟩
      exact ⟨_, wid, WorkerManager.mem_groupKeys.mpr ⟨hmem, rfl⟩, hget⟩

/-! ## The key is the user that was asked for -/

namespace Registry

/-- The index leads to no worker of another user. -/
def IndexTruthful (r : Registry) : Prop :=
  ∀ uid w, getByUID r.idx r.manager uid = some w → w.uid = uid

/-- `GetByUIDs` is `GetByUID` on the users of the list, and has no other key. -/
def BatchAgrees (r : Registry) : Prop :=
  ∀ uids uid, (getByUIDs r.idx r.manager uids).lookup uid =
    if uid ∈ uids then getByUID r.idx r.manager uid else none

theorem IndexTruthful.batchAgrees {r : Registry} (h : r.IndexTruthful) : r.BatchAgrees := by
  intro uids uid
  have hgathers := gathers_getByUIDs r.idx r.manager uids
  -- whatever is under `uid` has been asked for, since it is a worker of that user
  have hsound : ∀ w, (getByUIDs r.idx r.manager uids).lookup uid = some w →
      uid ∈ uids ∧ getByUID r.idx r.manager uid = some w := by
    intro w hw
    obtain ⟨⟨uid', huid', hget⟩, hkey⟩ := hgathers.sound uid w hw
    have hsame : uid = uid' := hkey.symm.trans (h uid' w hget)
    subst hsame
    exact ⟨huid', hget⟩
  cases hlookup : (getByUIDs r.idx r.manager uids).lookup uid with
  | some w =>
    obtain ⟨huid, hget⟩ := hsound w hlookup
    rw [if_pos huid, hget]
  | none =>
    split
    · next huid =>
      cases hget : getByUID r.idx r.manager uid with
      | none => rfl
      | some w =>
        obtain ⟨w', hw'⟩ := hgathers.complete w ⟨uid, huid, hget⟩
        rw [h uid w hget, hlookup] at hw'
        cases hw'
    · rfl

/-- The workers that the calls register. -/
def putWorkers (ops : List RegistryOp) : List Worker :=
  ops.filterMap fun
    | .put w => some w
    | .del _ => none

/-- An id belongs to one of the workers that the calls register. -/
def IdsIdentify (ops : List RegistryOp) : Prop :=
  ∀ w ∈ putWorkers ops, ∀ w' ∈ putWorkers ops, w.id = w'.id → w = w'

instance (ops : List RegistryOp) : Decidable (IdsIdentify ops) :=
  inferInstanceAs (Decidable (∀ w ∈ putWorkers ops, ∀ w' ∈ putWorkers ops, w.id = w'.id → w = w'))

/-- Both maps speak of these workers only, and the manager keeps each in its bucket. -/
structure SpeaksOf (known : List Worker) (r : Registry) : Prop where
  sharded : r.manager.Sharded
  registered : ∀ wid w, r.worker wid = some w → w ∈ known
  indexed : ∀ uid wid, r.idx.load (.int64 uid) = some wid → ∃ w ∈ known, w.uid = uid ∧ w.id = wid

theorem speaksOf_init (known : List Worker) (c : BucketConf) : SpeaksOf known (init c) := by
  refine ⟨WorkerManager.sharded_newWorkerManager c, fun wid w hw => ?_, fun uid wid hidx => ?_⟩
  · rw [show (init c).worker wid = none from WorkerManager.worker_newWorkerManager c wid] at hw
    cases hw
  · rw [show (init c).idx.load (.int64 uid) = none from SyncMap.load_empty _] at hidx
    cases hidx

theorem SpeaksOf.put {known : List Worker} {r r' : Registry} {w : Worker} (h : SpeaksOf known r)
    (hw : w ∈ known) (hstep : r.step (.put w) = some r') : SpeaksOf known r' := by
  have hsharded : r'.manager.Sharded := by
    cases hstep
    exact h.sharded.put r.idx w
  cases hold : r.worker w.id with
  | some old =>
    obtain ⟨hidx, hwk⟩ := step_put_taken hstep hold
    exact ⟨hsharded, fun wid w' hw' => h.registered wid w' (by rw [← hwk]; exact hw'),
      fun uid wid hload => h.indexed uid wid (by rw [← hidx]; exact hload)⟩
  | none =>
    obtain ⟨hidx, hwk⟩ := step_put_free hstep hold
    refine ⟨hsharded, fun wid w' hw' => ?_, fun uid wid hload => ?_⟩
    · rw [hwk] at hw'
      split at hw'
      · cases hw'
        exact hw
      · exact h.registered wid w' hw'
    · rw [hidx] at hload
      split at hload
      · next hkey =>
        cases hload
        cases hkey
        exact ⟨w, hw, rfl, rfl⟩
      · exact h.indexed uid wid hload

theorem SpeaksOf.del {known : List Worker} {r r' : Registry} {wid : UInt64} (h : SpeaksOf known r)
    (hstep : r.step (.del wid) = some r') : SpeaksOf known r' := by
  have hsharded : r'.manager.Sharded := by
    cases hstep
    exact h.sharded.del r.idx wid
  obtain ⟨hidx, -, hwk⟩ := step_del hstep
  refine ⟨hsharded, fun wid' w hw => ?_, fun uid wid' hload => ?_⟩
  · rw [hwk] at hw
    split at hw
    · cases hw
    · exact h.registered wid' w hw
  · rw [hidx] at hload
    exact h.indexed uid wid' hload

/-- An entry of the index leads to the worker it was stored for, or to none. -/
theorem SpeaksOf.indexTruthful {known : List Worker} {r : Registry} (h : SpeaksOf known r)
    (hids : ∀ w ∈ known, ∀ w' ∈ known, w.id = w'.id → w = w') : r.IndexTruthful := by
  intro uid w hget
  obtain ⟨wid, hidx, hw⟩ := getByUID_eq_some.mp hget
  have hid : w.id = wid := h.sharded.id_eq hw
  obtain ⟨w', hknown', huid, hid'⟩ := h.indexed uid wid hidx
  rw [hids w (h.registered wid w hw) w' hknown' (hid.trans hid'.symm)]
  exact huid

/-- What a run of the calls keeps, with the calls that are still to come. -/
theorem eachState_of_speaksOf {P : Registry → Prop} (c : BucketConf) (ops : List RegistryOp)
    (hP : ∀ r, SpeaksOf (putWorkers ops) r → P r) : EachState step P (init c) ops := by
  refine eachState_of_remaining
    (I := fun r rest => SpeaksOf (putWorkers ops) r ∧ ∀ w ∈ putWorkers rest, w ∈ putWorkers ops)
    ?_ (fun r _ h => hP r h.1) ⟨speaksOf_init _ c, fun _ hw => hw⟩
  rintro r op r' rest ⟨h, hrest⟩ hstep
  cases op with
  | put w =>
    refine ⟨h.put (hrest w (by simp [putWorkers])) hstep, fun w' hw' => hrest w' ?_⟩
    exact List.mem_cons_of_mem w hw'
  | del wid => exact ⟨h.del hstep, hrest⟩

/--
**In every state that calls of `Put` and `Del` lead to, `GetByUIDs` sends every user of the list
that `GetByUID` finds to the worker that `GetByUID` finds, and has no other key.**
-/
theorem eachState_batchAgrees (c : BucketConf) (ops : List RegistryOp) (hids : IdsIdentify ops) :
    EachState step BatchAgrees (init c) ops :=
  eachState_of_speaksOf c ops fun _ h => (h.indexTruthful hids).batchAgrees

/-- Three buckets, two workers of user 7 and a stale entry of user 9. -/
theorem batchAgrees_stale_entry :
    let ops := [RegistryOp.put ⟨0, 16, some { uid := 7 }⟩, .put ⟨1, 32, some { uid := 9 }⟩,
      .put ⟨2, 48, some { uid := 7 }⟩, .del 32]
    IdsIdentify ops ∧ EachState step BatchAgrees (init ⟨3, by decide⟩) ops := by
  intro ops
  have hids : IdsIdentify ops := by decide
  exact ⟨hids, eachState_batchAgrees _ ops hids⟩

end Registry

end FabricaNet.Internal
