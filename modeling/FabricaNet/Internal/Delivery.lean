import FabricaNet.Internal.Process

/-!
# `Push` reaches the user it names, or nobody

`GetByUID` goes through two maps of different scope: the index of the process, and the buckets of
one manager. A worker id read from the index was stored by a `Put` on any manager, so the lookup is
right only if an id belongs to one worker in the whole process.

Ids are unique across net types (`connID_inj`), not across listeners: two listeners of one net type
hand out the same ids. The property therefore holds exactly when the net types of the servers are
pairwise distinct (`noMisdelivery_iff`).

The proof has two invariants. `IdsInv` is about the generators and the workers they numbered; only
an `accept` touches it. `DeliveryInv` is about the two maps and the calls in progress; it uses the
first one only through `UniqueIds`.
-/

namespace FabricaNet.Internal

open Go Xnet Lib

namespace Process

/-- The worker was built by one of the servers. -/
def Known (p : Process) (w : Worker) : Prop := ∃ m, (m, w) ∈ p.workers

/-- An id belongs to one worker. -/
def UniqueIds (p : Process) : Prop :=
  ∀ w w', Known p w → Known p w' → w.id = w'.id → w = w'

/-- The generator of a server. -/
def genOf (p : Process) (m : Nat) : Option ConnIDGenerator := p.servers[m]?.map Server.gen

/-- Replacing the manager of a server, or its flag, changes no generator. -/
theorem genOf_set {p : Process} {m : Nat} {srv srv' : Server} (h : p.servers[m]? = some srv)
    (hgen : srv'.gen = srv.gen) (m' : Nat) :
    ((p.servers.set m srv')[m']?).map Server.gen = genOf p m' := by
  unfold genOf
  rw [List.getElem?_set]
  split
  · next he =>
    subst he
    rw [h, if_pos (List.getElem?_eq_some_iff.mp h).1]
    simp [hgen]
  · rfl

/-! ## One operation of a call -/

/-- Every way in which an operation changes the process and the call. -/
inductive CallEffect (p : Process) : Call → Process → Call → Prop
  | putBucket {m : Nat} {w : Worker} {srv : Server} {c : Call} (server : p.servers[m]? = some srv)
      (call : c = .returned none ∨ c = .putIndex m w) :
      CallEffect p (.put m w) (p.setManager m srv (srv.manager.putBucket w).2) c
  | storeIndex {m : Nat} {w : Worker} :
      CallEffect p (.putIndex m w) { p with uidWidMap := storeIndex p.uidWidMap w } (.putSize m)
  | addSize {m : Nat} {srv : Server} {c : Call} (delta : Int64)
      (server : p.servers[m]? = some srv) :
      CallEffect p c (p.setManager m srv (srv.manager.addSize delta)) (.returned none)
  | deleteIndex {m : Nat} {wid : UInt64} :
      CallEffect p (.del m wid) { p with uidWidMap := deleteIndex p.uidWidMap wid }
        (.delBucket m wid)
  | delBucket {m : Nat} {wid : UInt64} {srv : Server} (server : p.servers[m]? = some srv) :
      CallEffect p (.delBucket m wid) (p.setManager m srv (srv.manager.delBucket wid)) (.delSize m)
  /-- `Push` returns an error -/
  | refused {c : Call} (err : Err) : CallEffect p c p (.returned (some err))
  | pushIndex {m : Nat} {uid : Int64} {pack : Pack} :
      CallEffect p (.push m uid pack) p (.pushIndex m uid pack)
  | pushBucket {m : Nat} {uid : Int64} {wid : UInt64} {pack : Pack}
      (load : p.uidWidMap.load (.int64 uid) = some wid) :
      CallEffect p (.pushIndex m uid pack) p (.pushBucket m uid wid pack)
  | pushWorker {m : Nat} {uid : Int64} {wid : UInt64} {w : Worker} {pack : Pack} {srv : Server}
      (server : p.servers[m]? = some srv) (found : srv.manager.worker wid = some w) :
      CallEffect p (.pushBucket m uid wid pack) p (.pushWorker uid w pack)
  | pushSend {uid : Int64} {w : Worker} {pack : Pack} :
      CallEffect p (.pushWorker uid w pack) p (.pushSend uid w pack)
  | send {uid : Int64} {w : Worker} {pack : Pack} :
      CallEffect p (.pushSend uid w pack) { p with sent := p.sent ++ [⟨uid, w, pack⟩] }
        (.returned none)

theorem next_effect {p p' : Process} {c c' : Call} (h : c.next p = some (p', c')) :
    CallEffect p c p' c' := by
  cases c with
  | put m w =>
    simp only [Call.next] at h
    split at h
    · cases h
    · next srv hs =>
      split at h
      · next old manager hput =>
        cases h
        obtain rfl : (srv.manager.putBucket w).2 = manager := congrArg Prod.snd hput
        exact .putBucket hs (Or.inl rfl)
      · next manager hput =>
        cases h
        obtain rfl : (srv.manager.putBucket w).2 = manager := congrArg Prod.snd hput
        exact .putBucket hs (Or.inr rfl)
  | putIndex m w =>
    cases h
    exact .storeIndex
  | putSize m | delSize m =>
    simp only [Call.next] at h
    split at h
    · cases h
    · next srv hs =>
      cases h
      exact .addSize _ hs
  | del m wid =>
    cases h
    exact .deleteIndex
  | delBucket m wid =>
    simp only [Call.next] at h
    split at h
    · cases h
    · next srv hs =>
      cases h
      exact .delBucket hs
  | push m uid pack =>
    simp only [Call.next] at h
    split at h
    · cases h
    · split at h
      · cases h
        exact .refused _
      · split at h
        · cases h
          exact .refused _
        · cases h
          exact .pushIndex
  | pushIndex m uid pack =>
    simp only [Call.next] at h
    split at h
    · cases h
      exact .refused _
    · next wid hload =>
      cases h
      exact .pushBucket hload
  | pushBucket m uid wid pack =>
    simp only [Call.next] at h
    split at h
    · cases h
    · next srv hs =>
      split at h
      · cases h
        exact .refused _
      · next w hw =>
        cases h
        exact .pushWorker hs hw
  | pushWorker uid w pack =>
    simp only [Call.next] at h
    split at h
    · cases h
      exact .refused _
    · split at h
      · cases h
        exact .refused _
      · cases h
        exact .pushSend
  | pushSend uid w pack =>
    cases h
    exact .send
  | returned err => cases h

/-- An operation of a call accepts no connection and starts no call. -/
theorem next_frame {p p' : Process} {c c' : Call} (h : c.next p = some (p', c')) :
    p'.workers = p.workers ∧ p'.calls = p.calls ∧ ∀ m, genOf p' m = genOf p m := by
  cases next_effect h with
  | putBucket hs | addSize _ hs | delBucket hs => exact ⟨rfl, rfl, genOf_set hs rfl⟩
  | storeIndex | deleteIndex | refused | pushIndex | pushBucket | pushWorker | pushSend | send =>
    exact ⟨rfl, rfl, fun _ => rfl⟩

/-! ## The generators -/

/--
The generators have net types of their own and have not reached `2 ^ 60`, and every worker carries
an id that the generator of its server has issued.
-/
structure IdsInv (p : Process) : Prop where
  bound : ∀ m g, genOf p m = some g → g.counter.toNat < 2 ^ 60 ∧ g.netType.toUInt64.toNat < 16
  nets : ∀ m m' g g', genOf p m = some g → genOf p m' = some g' →
    g.netType.toUInt64 = g'.netType.toUInt64 → m = m'
  issued : ∀ m w, (m, w) ∈ p.workers → ∃ g c, genOf p m = some g ∧
    c.toNat ≤ g.counter.toNat ∧ w.id = connID c g.netType
  unique : UniqueIds p

theorem IdsInv.of_frame {p p' : Process} (h : IdsInv p) (hw : p'.workers = p.workers)
    (hg : ∀ m, genOf p' m = genOf p m) : IdsInv p' where
  bound := fun m g hm => h.bound m g (by rw [← hg]; exact hm)
  nets := fun m m' g g' hm hm' =>
    h.nets m m' g g' (by rw [← hg]; exact hm) (by rw [← hg]; exact hm')
  issued := fun m w hmw => by
    obtain ⟨g, c, hm, hrest⟩ := h.issued m w (by rw [← hw]; exact hmw)
    exact ⟨g, c, by rw [hg]; exact hm, hrest⟩
  unique := fun w w' hk hk' =>
    h.unique w w' (by unfold Known; rw [← hw]; exact hk) (by unfold Known; rw [← hw]; exact hk')

/-- The effect of an `accept` on the generators and the workers. -/
theorem step_accept {p p' : Process} {m : Nat} {ss : Option Session}
    (h : p.step (.accept m ss) = some p') :
    ∃ srv, p.servers[m]? = some srv ∧
      p'.workers = p.workers ++ [(m, ⟨p.workers.length, srv.gen.next.1, ss⟩)] ∧
      ∀ m', genOf p' m' = if m' = m then some srv.gen.next.2 else genOf p m' := by
  simp only [step] at h
  split at h
  · cases h
  · next srv hs =>
    cases h
    refine ⟨srv, hs, rfl, fun m' => ?_⟩
    unfold genOf
    show ((p.servers.set m { srv with gen := srv.gen.next.2 })[m']?).map Server.gen = _
    rw [List.getElem?_set]
    by_cases he : m = m'
    · subst he
      rw [if_pos rfl, if_pos rfl, if_pos (List.getElem?_eq_some_iff.mp hs).1]
      rfl
    · rw [if_neg he, if_neg (fun h => he h.symm)]

/-- The condition on a run: a generator that issues an id has issued fewer than `2 ^ 60 - 1`. -/
def CounterSmall (p : Process) (a : Action) : Prop :=
  ∀ m ss g, a = .accept m ss → genOf p m = some g → g.counter.toNat + 1 < 2 ^ 60

/-- The id that an `accept` hands out is new. -/
theorem IdsInv.next_ne {p : Process} (h : IdsInv p) {m : Nat} {g : ConnIDGenerator}
    (hg : genOf p m = some g) (hsmall : g.counter.toNat + 1 < 2 ^ 60) {m' : Nat} {w : Worker}
    (hw : (m', w) ∈ p.workers) : w.id ≠ g.next.1 := by
  intro he
  obtain ⟨g', c, hg', hc, hid⟩ := h.issued m' w hw
  have hnext := ConnIDGenerator.toNat_next_counter hsmall
  have hb := h.bound m g hg
  have hb' := h.bound m' g' hg'
  have hconn : connID c g'.netType = connID (g.counter + 1) g.netType := by
    rw [← hid, he]; rfl
  obtain ⟨hcount, hnet⟩ := connID_inj (by omega) (by omega) hb'.2 hb.2 hconn
  have hm : m' = m := h.nets m' m g' g hg' hg hnet
  subst hm
  rw [hg] at hg'
  cases hg'
  rw [hcount, hnext] at hc
  omega

theorem UniqueIds.concat {p p' : Process} (h : UniqueIds p) {m : Nat} {w₀ : Worker}
    (hworkers : p'.workers = p.workers ++ [(m, w₀)])
    (hne : ∀ m' w, (m', w) ∈ p.workers → w.id ≠ w₀.id) : UniqueIds p' := by
  rintro w w' ⟨m₁, h₁⟩ ⟨m₂, h₂⟩ hid
  rw [hworkers, List.mem_append, List.mem_singleton] at h₁ h₂
  rcases h₁ with h₁ | h₁ <;> rcases h₂ with h₂ | h₂
  · exact h w w' ⟨m₁, h₁⟩ ⟨m₂, h₂⟩ hid
  · cases h₂
    exact absurd hid (hne m₁ w h₁)
  · cases h₁
    exact absurd hid.symm (hne m₂ w' h₂)
  · cases h₁
    cases h₂
    rfl

theorem IdsInv.accept {p p' : Process} {m : Nat} {ss : Option Session} (h : IdsInv p)
    (hstep : p.step (.accept m ss) = some p') (hC : CounterSmall p (.accept m ss)) :
    IdsInv p' := by
  obtain ⟨srv, hs, hworkers, hgen⟩ := step_accept hstep
  have hg : genOf p m = some srv.gen := by unfold genOf; rw [hs]; rfl
  have hsmall : srv.gen.counter.toNat + 1 < 2 ^ 60 := hC m ss srv.gen rfl hg
  have hnext : srv.gen.next.2.counter.toNat = srv.gen.counter.toNat + 1 :=
    ConnIDGenerator.toNat_next_counter hsmall
  -- the net type of a generator never changes
  have hold : ∀ m' g', genOf p' m' = some g' →
      ∃ g, genOf p m' = some g ∧ g'.netType = g.netType := by
    intro m' g' hg'
    rw [hgen] at hg'
    split at hg'
    · next he => cases hg'; rw [he]; exact ⟨srv.gen, hg, rfl⟩
    · exact ⟨g', hg', rfl⟩
  refine ⟨?_, ?_, ?_, h.unique.concat hworkers fun m' w hw => h.next_ne hg hsmall hw⟩
  · intro m' g' hg'
    obtain ⟨g, hgo, hnt⟩ := hold m' g' hg'
    refine ⟨?_, by rw [hnt]; exact (h.bound m' g hgo).2⟩
    rw [hgen] at hg'
    split at hg'
    · cases hg'; omega
    · exact (h.bound m' g' hg').1
  · intro m₁ m₂ g₁ g₂ h₁ h₂ hnet
    obtain ⟨o₁, ho₁, hn₁⟩ := hold m₁ g₁ h₁
    obtain ⟨o₂, ho₂, hn₂⟩ := hold m₂ g₂ h₂
    exact h.nets m₁ m₂ o₁ o₂ ho₁ ho₂ (by rw [← hn₁, ← hn₂]; exact hnet)
  · intro m' w hw
    rw [hworkers, List.mem_append, List.mem_singleton] at hw
    rcases hw with hw | hw
    · obtain ⟨g, c, hgo, hc, hid⟩ := h.issued m' w hw
      by_cases he : m' = m
      · subst he
        rw [hg] at hgo
        cases hgo
        exact ⟨srv.gen.next.2, c, by rw [hgen, if_pos rfl], by omega, hid⟩
      · exact ⟨g, c, by rw [hgen, if_neg he]; exact hgo, hc, hid⟩
    · cases hw
      exact ⟨srv.gen.next.2, srv.gen.counter + 1, by rw [hgen, if_pos rfl], Nat.le_refl _, rfl⟩

/-- Every other step leaves the generators and the workers as they are. -/
theorem step_frame {p p' : Process} {a : Action} (h : p.step a = some p')
    (ha : ∀ m ss, a ≠ .accept m ss) :
    p'.workers = p.workers ∧ ∀ m, genOf p' m = genOf p m := by
  cases a with
  | accept m ss => exact absurd rfl (ha m ss)
  | put ref =>
    simp only [step] at h
    split at h <;> cases h
    exact ⟨rfl, fun _ => rfl⟩
  | del m wid => cases h; exact ⟨rfl, fun _ => rfl⟩
  | push m uid pack => cases h; exact ⟨rfl, fun _ => rfl⟩
  | next i =>
    simp only [step] at h
    split at h
    · cases h
    · split at h
      · cases h
      · next hn =>
        cases h
        obtain ⟨hw, -, hg⟩ := next_frame hn
        exact ⟨hw, hg⟩
  | stopServer m =>
    simp only [step] at h
    split at h
    · cases h
    · next srv hs => cases h; exact ⟨rfl, genOf_set hs rfl⟩
  | stopWorker ref => cases h; exact ⟨rfl, fun _ => rfl⟩

theorem IdsInv.step {p p' : Process} {a : Action} (h : IdsInv p) (hC : CounterSmall p a)
    (hstep : p.step a = some p') : IdsInv p' := by
  by_cases ha : ∃ m ss, a = .accept m ss
  · obtain ⟨m, ss, rfl⟩ := ha
    exact h.accept hstep hC
  · obtain ⟨hw, hg⟩ := step_frame hstep fun m ss he => ha ⟨m, ss, he⟩
    exact h.of_frame hw hg

/-! ## The two maps and the calls -/

/-- What a call has read so far belongs together. -/
def CallOk (p : Process) : Call → Prop
  | .put _ w | .putIndex _ w => Known p w
  | .pushBucket _ uid wid _ => ∃ w, Known p w ∧ w.id = wid ∧ w.uid = uid
  | .pushWorker uid w _ | .pushSend uid w _ => w.uid = uid
  | _ => True

theorem CallOk.of_workers {p p' : Process} {c : Call} (h : CallOk p c)
    (hw : ∀ w, Known p w → Known p' w) : CallOk p' c := by
  cases c with
  | put m w | putIndex m w => exact hw w h
  | pushBucket m uid wid pack =>
    obtain ⟨w, hk, hrest⟩ := h
    exact ⟨w, hw w hk, hrest⟩
  | pushWorker uid w pack | pushSend uid w pack => exact h
  | putSize _ | del _ _ | delBucket _ _ | delSize _ | push _ _ _ | pushIndex _ _ _
  | returned _ => trivial

/--
A registered worker is a known one and sits under its own id, an entry of the index was made for
a known worker, and every pack went to a worker of the user it was meant for.
-/
structure DeliveryInv (p : Process) : Prop where
  registered : ∀ srv ∈ p.servers, ∀ wid w, srv.manager.worker wid = some w →
    Known p w ∧ w.id = wid
  indexed : ∀ uid wid, p.uidWidMap.load (.int64 uid) = some wid →
    ∃ w, Known p w ∧ w.id = wid ∧ w.uid = uid
  calls : ∀ c ∈ p.calls, CallOk p c
  sent : ∀ d ∈ p.sent, d.worker.uid = d.uid

/-- The server part of the invariant, when one server is replaced. -/
theorem DeliveryInv.registered_set {p : Process} (h : DeliveryInv p) {m : Nat} {srv : Server}
    (hsrv : ∀ wid w, srv.manager.worker wid = some w → Known p w ∧ w.id = wid) :
    ∀ s ∈ p.servers.set m srv, ∀ wid w, s.manager.worker wid = some w →
      Known p w ∧ w.id = wid := by
  intro s hs
  rcases List.mem_or_eq_of_mem_set hs with hs | rfl
  · exact h.registered s hs
  · exact hsrv

theorem DeliveryInv.setManager {p : Process} (h : DeliveryInv p) {m : Nat} {srv : Server}
    {manager : WorkerManager}
    (hm : ∀ wid w, manager.worker wid = some w → Known p w ∧ w.id = wid) :
    DeliveryInv (p.setManager m srv manager) where
  registered := h.registered_set hm
  indexed := h.indexed
  calls := h.calls
  sent := h.sent

theorem DeliveryInv.putBucket {p : Process} (h : DeliveryInv p) {m : Nat} {srv : Server}
    {w : Worker} (hs : p.servers[m]? = some srv) (hw : Known p w) :
    DeliveryInv (p.setManager m srv (srv.manager.putBucket w).2) := by
  refine h.setManager fun wid w' hw' => ?_
  have hold := h.registered srv (List.mem_of_getElem? hs)
  rw [WorkerManager.worker_putBucket] at hw'
  split at hw'
  · next he =>
    cases ho : srv.manager.worker w.id with
    | none =>
      rw [ho] at hw'
      cases hw'
      exact ⟨hw, he.symm⟩
    | some old =>
      rw [ho] at hw'
      cases hw'
      rw [he]
      exact hold w.id old ho
  · exact hold wid w' hw'

theorem DeliveryInv.delBucket {p : Process} (h : DeliveryInv p) {m : Nat} {srv : Server}
    (wid : UInt64) (hs : p.servers[m]? = some srv) :
    DeliveryInv (p.setManager m srv (srv.manager.delBucket wid)) := by
  refine h.setManager fun wid' w hw => ?_
  rw [WorkerManager.worker_delBucket] at hw
  split at hw
  · cases hw
  · exact h.registered srv (List.mem_of_getElem? hs) wid' w hw

theorem DeliveryInv.addSize {p : Process} (h : DeliveryInv p) {m : Nat} {srv : Server}
    (delta : Int64) (hs : p.servers[m]? = some srv) :
    DeliveryInv (p.setManager m srv (srv.manager.addSize delta)) := by
  refine h.setManager fun wid w hw => ?_
  rw [WorkerManager.worker_addSize] at hw
  exact h.registered srv (List.mem_of_getElem? hs) wid w hw

theorem DeliveryInv.storeIndex {p : Process} (h : DeliveryInv p) {w : Worker} (hw : Known p w) :
    DeliveryInv { p with uidWidMap := storeIndex p.uidWidMap w } := by
  refine ⟨h.registered, fun uid wid hload => ?_, h.calls, h.sent⟩
  rw [load_storeIndex] at hload
  split at hload
  · next he =>
    cases hload
    exact ⟨w, hw, rfl, (Key.int64.inj he).symm⟩
  · exact h.indexed uid wid hload

theorem DeliveryInv.deleteIndex {p : Process} (h : DeliveryInv p) (wid : UInt64) :
    DeliveryInv { p with uidWidMap := deleteIndex p.uidWidMap wid } := by
  refine ⟨h.registered, fun uid wid' hload => ?_, h.calls, h.sent⟩
  rw [load_deleteIndex_int64] at hload
  exact h.indexed uid wid' hload

/-- The worker under an id that was stored for a user is the user's. -/
theorem DeliveryInv.uid_of_worker {p : Process} (h : DeliveryInv p) (hu : UniqueIds p)
    {srv : Server} {uid : Int64} {wid : UInt64} {w : Worker} (hs : srv ∈ p.servers)
    (hstored : ∃ w, Known p w ∧ w.id = wid ∧ w.uid = uid) (hw : srv.manager.worker wid = some w) :
    w.uid = uid := by
  obtain ⟨w₀, hk₀, hid₀, huid₀⟩ := hstored
  obtain ⟨hk, hid⟩ := h.registered srv hs wid w hw
  -- the id belongs to one worker only, whichever manager it is found in
  have he : w = w₀ := hu w w₀ hk hk₀ (by rw [hid, hid₀])
  rw [he]
  exact huid₀

theorem DeliveryInv.send {p : Process} (h : DeliveryInv p) {d : Delivery}
    (hd : d.worker.uid = d.uid) : DeliveryInv { p with sent := p.sent ++ [d] } := by
  refine ⟨h.registered, h.indexed, h.calls, fun d' hd' => ?_⟩
  rcases List.mem_append.mp hd' with hd' | hd'
  · exact h.sent d' hd'
  · rw [List.mem_singleton.mp hd']
    exact hd

/-- **One operation of a call keeps the invariant, if ids are unique.** -/
theorem DeliveryInv.next {p p' : Process} {c c' : Call} (h : DeliveryInv p) (hu : UniqueIds p)
    (hc : CallOk p c) (hn : c.next p = some (p', c')) : DeliveryInv p' ∧ CallOk p' c' := by
  cases next_effect hn with
  | putBucket hs hcall =>
    refine ⟨h.putBucket hs hc, ?_⟩
    rcases hcall with rfl | rfl
    · trivial
    · exact hc
  | storeIndex => exact ⟨h.storeIndex hc, trivial⟩
  | addSize delta hs => exact ⟨h.addSize delta hs, trivial⟩
  | deleteIndex => exact ⟨h.deleteIndex _, trivial⟩
  | delBucket hs => exact ⟨h.delBucket _ hs, trivial⟩
  | refused | pushIndex => exact ⟨h, trivial⟩
  | pushBucket hload => exact ⟨h, h.indexed _ _ hload⟩
  | pushWorker hs hw => exact ⟨h, h.uid_of_worker hu (List.mem_of_getElem? hs) hc hw⟩
  | pushSend => exact ⟨h, hc⟩
  | send => exact ⟨h.send hc, trivial⟩

/-- A new call keeps the invariant. -/
theorem DeliveryInv.addCall {p : Process} (h : DeliveryInv p) {c : Call} (hc : CallOk p c) :
    DeliveryInv { p with calls := p.calls ++ [c] } where
  registered := h.registered
  indexed := h.indexed
  calls := fun c' hc' => by
    rcases List.mem_append.mp hc' with hc' | hc'
    · exact h.calls c' hc'
    · rw [List.mem_singleton.mp hc']
      exact hc
  sent := h.sent

theorem DeliveryInv.accept {p p' : Process} {m : Nat} {ss : Option Session} (h : DeliveryInv p)
    (hstep : p.step (.accept m ss) = some p') : DeliveryInv p' := by
  simp only [Process.step] at hstep
  split at hstep
  · cases hstep
  · next srv hs =>
    have hknown : ∀ w, Known p w → Known p' w := by
      rintro w ⟨m', hm'⟩
      cases hstep
      exact ⟨m', List.mem_append_left _ hm'⟩
    cases hstep
    refine ⟨?_, ?_, fun c hc => (h.calls c hc).of_workers hknown, h.sent⟩
    · intro s hs' wid w hw
      have hreg : Known p w ∧ w.id = wid := by
        rcases List.mem_or_eq_of_mem_set hs' with hs' | rfl
        · exact h.registered s hs' wid w hw
        · exact h.registered srv (List.mem_of_getElem? hs) wid w hw
      exact ⟨hknown w hreg.1, hreg.2⟩
    · intro uid wid hload
      obtain ⟨w, hk, hrest⟩ := h.indexed uid wid hload
      exact ⟨w, hknown w hk, hrest⟩

/-- **Every step keeps the invariant, if ids are unique.** -/
theorem DeliveryInv.step {p p' : Process} {a : Action} (h : DeliveryInv p) (hu : UniqueIds p)
    (hstep : p.step a = some p') : DeliveryInv p' := by
  cases a with
  | accept m ss => exact h.accept hstep
  | put ref =>
    simp only [Process.step] at hstep
    split at hstep
    · cases hstep
    · next m w hw => cases hstep; exact h.addCall ⟨m, List.mem_of_getElem? hw⟩
  | del m wid => cases hstep; exact h.addCall trivial
  | push m uid pack => cases hstep; exact h.addCall trivial
  | next i =>
    simp only [Process.step] at hstep
    split at hstep
    · cases hstep
    · next c hc =>
      split at hstep
      · cases hstep
      · next p₁ c' hn =>
        cases hstep
        obtain ⟨h₁, hok⟩ := h.next hu (h.calls c (List.mem_of_getElem? hc)) hn
        refine ⟨h₁.registered, h₁.indexed, fun c₂ hc₂ => ?_, h₁.sent⟩
        rcases List.mem_or_eq_of_mem_set hc₂ with hc₂ | rfl
        · exact h₁.calls c₂ hc₂
        · exact hok
  | stopServer m =>
    simp only [Process.step] at hstep
    split at hstep
    · cases hstep
    · next srv hs =>
      cases hstep
      exact ⟨h.registered_set (h.registered srv (List.mem_of_getElem? hs)), h.indexed, h.calls,
        h.sent⟩
  | stopWorker ref => cases hstep; exact ⟨h.registered, h.indexed, h.calls, h.sent⟩

/-! ## Misdelivery -/

/--
`GetByUID` returns a worker of the user asked for or none, on every manager, and no pack was sent
to a worker of another user than `Push` named.
-/
def NoMisdelivery (p : Process) : Prop :=
  (∀ srv ∈ p.servers, ∀ uid w, getByUID p.uidWidMap srv.manager uid = some w → w.uid = uid) ∧
    ∀ d ∈ p.sent, d.worker.uid = d.uid

theorem DeliveryInv.noMisdelivery {p : Process} (h : DeliveryInv p) (hu : UniqueIds p) :
    NoMisdelivery p := by
  refine ⟨fun srv hs uid w hget => ?_, h.sent⟩
  unfold getByUID at hget
  split at hget
  · cases hget
  · next wid hload => exact h.uid_of_worker hu hs (h.indexed uid wid hload) hget

theorem genOf_init {confs : List ServerConf} {m : Nat} {g : ConnIDGenerator}
    (h : genOf (init confs) m = some g) :
    ∃ c, confs[m]? = some c ∧ g = newConnIDGenerator c.netType.toInt64 := by
  unfold genOf init at h
  rw [List.getElem?_map, Option.map_map, Option.map_eq_some_iff] at h
  obtain ⟨c, hc, rfl⟩ := h
  exact ⟨c, hc, rfl⟩

theorem idsInv_init {confs : List ServerConf} (h : (confs.map ServerConf.netType).Nodup) :
    IdsInv (init confs) where
  bound := fun m g hg => by
    obtain ⟨c, -, rfl⟩ := genOf_init hg
    exact ⟨show (0 : UInt64).toNat < 2 ^ 60 by decide, c.netType.toUInt64_lt⟩
  nets := fun m m' g g' hg hg' hnet => by
    obtain ⟨c, hc, rfl⟩ := genOf_init hg
    obtain ⟨c', hc', rfl⟩ := genOf_init hg'
    have hm : (confs.map ServerConf.netType)[m]? = some c.netType := by
      rw [List.getElem?_map, hc]; rfl
    have hm' : (confs.map ServerConf.netType)[m']? = some c.netType := by
      rw [List.getElem?_map, hc', NetType.toUInt64_inj hnet]; rfl
    exact (List.getElem?_inj (List.getElem?_eq_some_iff.mp hm).1 h).mp (by rw [hm, hm'])
  issued := fun m w hw => by cases hw
  unique := fun w w' hk => by
    obtain ⟨m, hm⟩ := hk
    cases hm

theorem deliveryInv_init (confs : List ServerConf) : DeliveryInv (init confs) where
  registered := fun srv hs wid w hw => by
    obtain ⟨c, -, rfl⟩ := List.mem_map.mp hs
    rw [show (newServer c).manager.worker wid = none from
      WorkerManager.worker_newWorkerManager c.bucket wid] at hw
    cases hw
  indexed := fun uid wid hload => by
    rw [show (init confs).uidWidMap.load (.int64 uid) = none from SyncMap.load_empty _] at hload
    cases hload
  calls := fun c hc => by cases hc
  sent := fun d hd => by cases hd

/-- A run in which no listener accepts `2 ^ 60` connections never brings a counter that far. -/
theorem eachStep_counterSmall {p : Process} {as : List Action}
    (h : ∀ m g, genOf p m = some g → g.counter.toNat + accepts m as < 2 ^ 60) :
    EachStep step (fun p a _ => CounterSmall p a) p as := by
  induction as generalizing p with
  | nil => trivial
  | cons a as ih =>
    intro p' hstep
    constructor
    · rintro m ss g rfl hg
      have := h m g hg
      simp only [accepts, List.countP_cons, beq_self_eq_true, if_true] at this
      omega
    · refine ih fun m g hg => ?_
      by_cases ha : ∃ m' ss, a = .accept m' ss
      · obtain ⟨m', ss, rfl⟩ := ha
        obtain ⟨srv, hs, -, hgen⟩ := step_accept hstep
        rw [hgen] at hg
        split at hg
        · next he =>
          cases hg
          subst he
          have hb := h m srv.gen (by unfold genOf; rw [hs]; rfl)
          simp only [accepts, List.countP_cons, beq_self_eq_true, if_true] at hb
          rw [show srv.gen.next.2.counter.toNat = srv.gen.counter.toNat + 1 from
            ConnIDGenerator.toNat_next_counter (by omega)]
          show _ + accepts m as < _
          unfold accepts
          omega
        · have hb := h m g hg
          unfold accepts at hb ⊢
          rw [List.countP_cons] at hb
          omega
      · obtain ⟨-, hg'⟩ := step_frame hstep fun m' ss he => ha ⟨m', ss, he⟩
        rw [hg'] at hg
        have hb := h m g hg
        unfold accepts at hb ⊢
        rw [List.countP_cons] at hb
        omega

/-- **With distinct net types no pack reaches another user's worker.** -/
theorem noMisdelivery_of_nodup {confs : List ServerConf}
    (hnets : (confs.map ServerConf.netType).Nodup) {as : List Action} {p : Process}
    (hrun : run step (init confs) as = some p) (hacc : ∀ m, accepts m as < 2 ^ 60) :
    NoMisdelivery p := by
  have hC : EachStep step (fun p a _ => CounterSmall p a) (init confs) as := by
    refine eachStep_counterSmall fun m g hg => ?_
    obtain ⟨c, -, rfl⟩ := genOf_init hg
    show (0 : UInt64).toNat + _ < _
    rw [UInt64.toNat_zero, Nat.zero_add]
    exact hacc m
  have hinv : IdsInv p ∧ DeliveryInv p := by
    refine run_inv_of_eachStep (I := fun p => IdsInv p ∧ DeliveryInv p) ?_
      ⟨idsInv_init hnets, deliveryInv_init confs⟩ hC hrun
    rintro p₁ a p₂ ⟨hi, hd⟩ hc hstep
    exact ⟨hi.step hc hstep, hd.step hi.unique hstep⟩
  exact hinv.2.noMisdelivery hinv.1.unique

/-! ## Two listeners of one net type -/

/-- The worker that an `accept` of server `srv` would build. -/
def nextWorker (p : Process) (srv : Server) (ss : Option Session) : Worker :=
  ⟨p.workers.length, srv.gen.next.1, ss⟩

/-- A connection is accepted, and `Put` runs for it without interruption. -/
def connect (p : Process) (m : Nat) (ss : Option Session) : List Action :=
  let i := p.calls.length
  [.accept m ss, .put p.workers.length, .next i, .next i, .next i]

/-- The process after `connect`, where `Put` ran as one call. -/
def connected (p : Process) (m : Nat) (srv : Server) (ss : Option Session) : Process :=
  let w := p.nextWorker srv ss
  let r := put p.uidWidMap srv.manager w
  { p with
    uidWidMap := r.2.1
    servers := p.servers.set m { srv with gen := srv.gen.next.2, manager := r.2.2 }
    workers := p.workers ++ [(m, w)]
    calls := p.calls ++ [.returned none] }

/-- The next operation of the call that was made last. -/
theorem step_next_last {p : Process} (p' : Process) {calls : List Call} {c c' : Call}
    (hcalls : p.calls = calls ++ [c]) (hnext : c.next p = some (p', c'))
    (hkeep : p'.calls = p.calls) :
    p.step (.next calls.length) = some { p' with calls := calls ++ [c'] } := by
  simp only [step, hcalls, List.getElem?_concat_length, hnext, hkeep, List.set_append_right,
    Nat.le_refl, Nat.sub_self, List.set_cons_zero]

/-- The three operations of `Put`, run in a row, are the function `put`. -/
theorem run_connect {p : Process} {m : Nat} {srv : Server} (ss : Option Session)
    (hs : p.servers[m]? = some srv)
    (hfree : srv.manager.worker (p.nextWorker srv ss).id = none) :
    run step p (p.connect m ss) = some (p.connected m srv ss) := by
  obtain ⟨manager, hput⟩ :
      ∃ manager, srv.manager.putBucket (p.nextWorker srv ss) = (none, manager) :=
    ⟨_, by rw [← hfree, ← WorkerManager.putBucket_fst]⟩
  have hlt : m < p.servers.length := (List.getElem?_eq_some_iff.mp hs).1
  -- the server as `accept` leaves it, and as the first and the last operation of `Put` do
  let srv₁ : Server := { srv with gen := srv.gen.next.2 }
  let srv₂ : Server := { srv₁ with manager := manager }
  let p₁ : Process := { p with
    servers := p.servers.set m srv₁
    workers := p.workers ++ [(m, p.nextWorker srv ss)]
    calls := p.calls ++ [.put m (p.nextWorker srv ss)] }
  let p₂ : Process := { p₁ with
    servers := p₁.servers.set m srv₂
    calls := p.calls ++ [.putIndex m (p.nextWorker srv ss)] }
  let p₃ : Process := { p₂ with
    uidWidMap := storeIndex p.uidWidMap (p.nextWorker srv ss)
    calls := p.calls ++ [.putSize m] }
  have hs₁ : p₁.servers[m]? = some srv₁ := List.getElem?_set_self hlt
  have hs₃ : p₃.servers[m]? = some srv₂ := List.getElem?_set_self (by rwa [List.length_set])
  have h₁ : p₁.step (.next p.calls.length) = some p₂ := by
    refine step_next_last (p₁.setManager m srv₁ manager) rfl ?_ rfl
    simp only [Call.next, hs₁]
    rw [show srv₁.manager.putBucket _ = _ from hput]
  have h₂ : p₂.step (.next p.calls.length) = some p₃ :=
    step_next_last { p₂ with uidWidMap := p₃.uidWidMap } rfl rfl rfl
  have h₃ : p₃.step (.next p.calls.length) = some (p.connected m srv ss) := by
    have hnext : (Call.putSize m).next p₃ =
        some (p₃.setManager m srv₂ (manager.addSize 1), .returned none) := by
      simp only [Call.next, hs₃]
      rfl
    rw [step_next_last _ rfl hnext rfl]
    simp only [connected, put, hput, setManager, p₃, p₂, p₁, srv₂, srv₁, List.set_set]
  refine run_cons_eq_some.mpr ⟨{ p₁ with calls := p.calls }, by simp only [step, hs]; rfl, ?_⟩
  refine run_cons_eq_some.mpr ⟨p₁, by simp only [step, p₁, List.getElem?_concat_length], ?_⟩
  refine run_cons_eq_some.mpr ⟨p₂, h₁, run_cons_eq_some.mpr ⟨p₃, h₂, ?_⟩⟩
  exact run_cons_eq_some.mpr ⟨_, h₃, rfl⟩

section Connected

variable {p : Process} {m : Nat} {srv : Server} {ss : Option Session}

theorem uidWidMap_connected (hfree : srv.manager.worker (p.nextWorker srv ss).id = none) :
    (p.connected m srv ss).uidWidMap = storeIndex p.uidWidMap (p.nextWorker srv ss) := by
  show (put p.uidWidMap srv.manager _).2.1 = _
  rw [put_of_free p.uidWidMap hfree]

/-- The server finds the worker of its new connection. -/
theorem exists_server_connected (hs : p.servers[m]? = some srv)
    (hfree : srv.manager.worker (p.nextWorker srv ss).id = none) :
    ∃ srv' ∈ (p.connected m srv ss).servers,
      srv'.manager.worker (p.nextWorker srv ss).id = some (p.nextWorker srv ss) := by
  refine ⟨_, List.mem_set (List.getElem?_eq_some_iff.mp hs).1 _, ?_⟩
  show (put p.uidWidMap srv.manager _).2.2.worker _ = _
  rw [put_of_free p.uidWidMap hfree, WorkerManager.worker_addSize, WorkerManager.worker_putBucket,
    if_pos rfl, hfree]
  rfl

end Connected

/-- The first connection of a new server gets the same id from every generator of the net type. -/
theorem nextWorker_newServer_id (p p' : Process) {c c' : ServerConf}
    (h : c.netType = c'.netType) (ss ss' : Option Session) :
    (p.nextWorker (newServer c) ss).id = (p'.nextWorker (newServer c') ss').id := by
  unfold nextWorker newServer
  rw [h]

/--
Two servers whose listeners have one net type each take one connection. Their ids are the same, and
the second server finds its own user under the id of the first one's.
-/
theorem misdelivery_of_same_netType {confs : List ServerConf} {m m' : Nat} {c c' : ServerConf}
    (hm : confs[m]? = some c) (hm' : confs[m']? = some c') (hne : m ≠ m')
    (hnet : c.netType = c'.netType) :
    ∃ as p, run step (init confs) as = some p ∧ (∀ i, accepts i as < 2 ^ 60) ∧
      ¬ NoMisdelivery p := by
  let p₁ := (init confs).connected m (newServer c) (some { uid := 1 })
  let p₂ := p₁.connected m' (newServer c') (some { uid := 2 })
  have hfree : ∀ (s : ServerConf) wid, (newServer s).manager.worker wid = none :=
    fun s wid => WorkerManager.worker_newWorkerManager s.bucket wid
  have hs : (init confs).servers[m]? = some (newServer c) := by
    show (confs.map newServer)[m]? = _
    rw [List.getElem?_map, hm]; rfl
  have hs' : p₁.servers[m']? = some (newServer c') := by
    show ((confs.map newServer).set m _)[m']? = _
    rw [List.getElem?_set_ne hne, List.getElem?_map, hm']; rfl
  refine ⟨(init confs).connect m (some { uid := 1 }) ++ p₁.connect m' (some { uid := 2 }), p₂,
    ?_, ?_, ?_⟩
  · rw [run_append, run_connect _ hs (hfree c _)]
    exact run_connect _ hs' (hfree c' _)
  · intro i
    exact Nat.lt_of_le_of_lt (accepts_le_length i _) (by show 10 < 2 ^ 60; decide)
  · rintro ⟨hget, -⟩
    let w := (init confs).nextWorker (newServer c) (some { uid := 1 })
    let w' := p₁.nextWorker (newServer c') (some { uid := 2 })
    have hid : w.id = w'.id := nextWorker_newServer_id _ _ hnet _ _
    have hidx : p₂.uidWidMap = storeIndex (storeIndex SyncMap.empty w) w' := by
      rw [uidWidMap_connected (hfree c' _), uidWidMap_connected (hfree c _)]
      rfl
    have hload : p₂.uidWidMap.load (.int64 1) = some w'.id := by
      rw [hidx, load_storeIndex, show w'.uid = 2 from rfl, if_neg (by decide), load_storeIndex,
        show w.uid = 1 from rfl, if_pos rfl, hid]
    obtain ⟨srv', hmem, hworker⟩ := exists_server_connected hs' (hfree c' w'.id)
    have huid : w'.uid = 1 := by
      refine hget srv' hmem 1 w' ?_
      unfold getByUID
      rw [hload]
      exact hworker
    exact absurd huid (show ¬ (2 : Int64) = 1 by decide)

/--
**No pack is delivered to another user, whatever the servers of the process do, exactly when no two
of their listeners have the same net type.** The runs are those in which no listener accepts
`2 ^ 60` connections, so that one generator does not repeat an id.
-/
theorem noMisdelivery_iff (confs : List ServerConf) :
    (∀ as p, run step (init confs) as = some p → (∀ m, accepts m as < 2 ^ 60) →
      NoMisdelivery p) ↔ (confs.map ServerConf.netType).Nodup := by
  constructor
  · intro h
    by_contra hnd
    rw [List.nodup_iff_getElem?_ne_getElem?] at hnd
    push Not at hnd
    obtain ⟨m, m', hlt, hlen, heq⟩ := hnd
    rw [List.length_map] at hlen
    have hm : confs[m]? = some confs[m] := List.getElem?_eq_getElem (by omega)
    have hm' : confs[m']? = some confs[m'] := List.getElem?_eq_getElem hlen
    rw [List.getElem?_map, List.getElem?_map, hm, hm'] at heq
    obtain ⟨as, p, hrun, hacc, hbad⟩ :=
      misdelivery_of_same_netType hm hm' (by omega) (Option.some.inj heq)
    exact hbad (h as p hrun hacc)
  · intro hnd as p hrun hacc
    exact noMisdelivery_of_nodup hnd hrun hacc

/-- Two TCP servers: a pack for user 1, pushed through the second one, is sent to user 2. -/
theorem misdelivery_two_tcp_servers :
    let conf : ServerConf := ⟨.tcp, ⟨1, by decide⟩⟩
    let as : List Action :=
      [.accept 0 (some { uid := 1 }), .accept 1 (some { uid := 2 }), .put 0, .next 0, .next 0,
        .put 1, .next 1, .next 1, .push 1 1 [42], .next 2, .next 2, .next 2, .next 2, .next 2]
    (∀ m, accepts m as < 2 ^ 60) ∧
      ∃ p, run step (init [conf, conf]) as = some p ∧ ¬ NoMisdelivery p := by
  refine ⟨fun m => ?_, _, rfl, fun h => ?_⟩
  · exact Nat.lt_of_le_of_lt (accepts_le_length m _) (by decide)
  · have hsent := h.2 ⟨1, ⟨1, 16, some { uid := 2 }⟩, [42]⟩ (List.mem_singleton.mpr rfl)
    exact absurd hsent (by decide)

end Process

end FabricaNet.Internal
