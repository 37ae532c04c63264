import FabricaNet.Internal.TunnelManager

/-!
# The lives of tunnels

* `one_live_tunnel` — for every type and object id there is at most one tunnel that is not stopping:
  `create` is called with the lock, after a second look, and whoever is live is in the map, or is
  about to be put there by the holder of the lock, or is about to be stopped by it
* `none_outlives_iff` — after `stop` has returned there is no live tunnel, exactly as long as no
  call of `createTunnel` creates one: nothing keeps a call that comes to the lock after `stop` from
  doing that, and nothing but the tunnel itself will stop the tunnel then (`tunnel_outlives_stop`)
* `registered_stopping_iff` — the same for the tunnels in the map: after `stop` has returned all of
  them are stopping, exactly as long as no live one is put there
-/

namespace FabricaNet.Internal

open Go Xnet Lib

namespace TunnelsRun

/-- A tunnel for this type and object id that is not stopping. -/
def Live (s : TunnelsRun) (tp : Int32) (oid : Int64) (t : Nat) : Prop :=
  ∃ info, s.tunnels[t]? = some info ∧ info.tp = tp ∧ info.oid = oid ∧ info.stopping = false

/-- No two tunnels for one type and object id are live. -/
def NoTwoLive (s : TunnelsRun) : Prop :=
  ∀ tp oid t t', s.Live tp oid t → s.Live tp oid t' → t = t'

/-- `create` is called only when no tunnel for its arguments is live. -/
def CreatesOnlyMissing (_ : TunnelsRun) (a : TunnelsAct) (s' : TunnelsRun) : Prop :=
  ∀ i tp oid, a = .lock i → s'.calls i = .creating tp oid → ∀ t, ¬s'.Live tp oid t

/-- The steps of a call that fails: all but the last one of a call that creates a tunnel. -/
def OfFailingCall : TunnelsAct → Prop
  | .call _ _ _ | .lookup _ | .lock _ | .create _ (some _) => True
  | _ => False

/-- What a call that fails does changes no lookup. -/
def FailureKeepsLookups (s : TunnelsRun) (a : TunnelsAct) (s' : TunnelsRun) : Prop :=
  OfFailingCall a → ∀ tp oid, s'.tunnel tp oid = s.tunnel tp oid

/-- The tunnels that `stop` has taken from the map and not stopped yet. -/
def pending (s : TunnelsRun) : List Nat :=
  match s.stop with
  | .stopping pending => pending
  | _ => []

variable {s s' : TunnelsRun}

/-! ## What the steps change -/

@[simp] theorem setCall_self (i : Nat) (pc : TunnelPc) : (s.setCall i pc).calls i = pc :=
  Function.update_self ..

theorem setCall_of_ne {i j : Nat} (pc : TunnelPc) (h : j ≠ i) :
    (s.setCall i pc).calls j = s.calls j := Function.update_of_ne h ..

theorem registered_withGroup (tp : Int32) (tp' : Int32) (oid : Int64) :
    (s.withGroup tp).registered tp' oid = s.registered tp' oid := by
  unfold withGroup
  split
  · rfl
  · next hnone =>
    unfold registered
    by_cases htp : tp' = tp
    · subst htp
      rw [AList.lookup_insert, hnone]
      exact AList.lookup_empty oid
    · rw [AList.lookup_insert_ne htp]

theorem withGroup_tunnels (tp : Int32) : (s.withGroup tp).tunnels = s.tunnels := by
  unfold withGroup
  split <;> rfl

theorem withGroup_calls (tp : Int32) : (s.withGroup tp).calls = s.calls := by
  unfold withGroup
  split <;> rfl

theorem withGroup_stop (tp : Int32) : (s.withGroup tp).stop = s.stop := by
  unfold withGroup
  split <;> rfl

theorem withGroup_holder (tp : Int32) : (s.withGroup tp).holder = s.holder := by
  unfold withGroup
  split <;> rfl

theorem registered_setTunnel (tp tp' : Int32) (oid oid' : Int64) (t : Nat) :
    (s.setTunnel tp oid t).registered tp' oid' =
      if tp' = tp ∧ oid' = oid then some t else s.registered tp' oid' := by
  unfold registered setTunnel
  by_cases htp : tp' = tp
  · subst htp
    rw [AList.lookup_insert, Option.bind_some]
    by_cases hoid : oid' = oid
    · subst hoid
      rw [AList.lookup_insert, if_pos ⟨rfl, rfl⟩]
    · rw [AList.lookup_insert_ne hoid, if_neg fun h => hoid h.2]
      cases s.tunnelGroups.lookup tp' with
      | none => exact AList.lookup_empty oid'
      | some tg => rfl
  · rw [AList.lookup_insert_ne htp, if_neg fun h => htp h.1]

/-- Lookups depend on the entries and on the tunnels only. -/
theorem tunnel_congr (hreg : ∀ tp oid, s'.registered tp oid = s.registered tp oid)
    (htunnels : s'.tunnels = s.tunnels) (tp : Int32) (oid : Int64) :
    s'.tunnel tp oid = s.tunnel tp oid := by
  unfold tunnel onStopping
  rw [hreg, htunnels]

theorem live_congr (htunnels : s'.tunnels = s.tunnels) {tp : Int32} {oid : Int64} {t : Nat} :
    s'.Live tp oid t ↔ s.Live tp oid t := by
  unfold Live
  rw [htunnels]

/-- A live tunnel that is in the map is found. -/
theorem tunnel_of_live {tp : Int32} {oid : Int64} {t : Nat} (hreg : s.registered tp oid = some t)
    (hlive : s.Live tp oid t) : s.tunnel tp oid = some t := by
  obtain ⟨info, hinfo, -, -, hstopping⟩ := hlive
  unfold tunnel onStopping
  rw [hreg]
  simp [hinfo, hstopping]

/-- Tunnels do not come back to life, and keep their type and object id. -/
theorem live_of_modify {t : Nat} {f : TunnelInfo → TunnelInfo}
    (hf : ∀ info, (f info).tp = info.tp ∧ (f info).oid = info.oid ∧
      ((f info).stopping = false → info.stopping = false))
    {tp : Int32} {oid : Int64} {t' : Nat} (h : (s.modify t f).Live tp oid t') :
    s.Live tp oid t' := by
  obtain ⟨info, hinfo, htp, hoid, hstopping⟩ := h
  change (s.tunnels.modify t f)[t']? = some info at hinfo
  rw [List.getElem?_modify] at hinfo
  obtain ⟨old, hold, rfl⟩ := Option.map_eq_some_iff.mp hinfo
  by_cases ht : t = t'
  · rw [if_pos ht] at htp hoid hstopping
    obtain ⟨h₁, h₂, h₃⟩ := hf old
    exact ⟨old, hold, h₁.symm.trans htp, h₂.symm.trans hoid, h₃ hstopping⟩
  · rw [if_neg ht] at htp hoid hstopping
    exact ⟨old, hold, htp, hoid, hstopping⟩

theorem live_of_exited {t : Nat} {tp : Int32} {oid : Int64} {t' : Nat}
    (h : (s.modify t fun info => { info with scExited := true }).Live tp oid t') :
    s.Live tp oid t' :=
  live_of_modify (f := fun info => { info with scExited := true }) (fun _ => ⟨rfl, rfl, id⟩) h

theorem live_of_stopped {t : Nat} {tp : Int32} {oid : Int64} {t' : Nat}
    (h : (s.modify t fun info => { info with stopping := true }).Live tp oid t') :
    s.Live tp oid t' :=
  live_of_modify (f := fun info => { info with stopping := true }) (fun _ => ⟨rfl, rfl, nofun⟩) h

theorem not_live_of_stopped {t : Nat} {tp : Int32} {oid : Int64} :
    ¬(s.modify t fun info => { info with stopping := true }).Live tp oid t := by
  rintro ⟨info, hinfo, -, -, hstopping⟩
  change (s.tunnels.modify t _)[t]? = some info at hinfo
  rw [List.getElem?_modify] at hinfo
  obtain ⟨old, -, rfl⟩ := Option.map_eq_some_iff.mp hinfo
  rw [if_pos rfl] at hstopping
  cases hstopping

theorem live_addTunnel {tp tp' : Int32} {oid oid' : Int64} {t : Nat} :
    (s.addTunnel tp oid).Live tp' oid' t ↔
      s.Live tp' oid' t ∨ t = s.tunnels.length ∧ tp' = tp ∧ oid' = oid := by
  unfold Live addTunnel
  simp only [List.getElem?_append]
  constructor
  · rintro ⟨info, hinfo, htp, hoid, hstopping⟩
    split at hinfo
    · exact Or.inl ⟨info, hinfo, htp, hoid, hstopping⟩
    · next hlt =>
      obtain ⟨hidx, rfl⟩ := List.getElem?_eq_some_iff.mp hinfo
      rw [List.length_singleton] at hidx
      refine Or.inr ⟨by omega, ?_⟩
      simp only [List.getElem_singleton] at htp hoid
      exact ⟨htp.symm, hoid.symm⟩
  · rintro (⟨info, hinfo, hrest⟩ | ⟨rfl, rfl, rfl⟩)
    · rw [if_pos (List.getElem?_eq_some_iff.mp hinfo).1]
      exact ⟨info, hinfo, hrest⟩
    · rw [if_neg (Nat.lt_irrefl _), Nat.sub_self]
      exact ⟨_, rfl, rfl, rfl, rfl⟩

/-! ## The invariant -/

/-- Where the live tunnels are, and what the holder of the lock may rely on. -/
structure Kept (s : TunnelsRun) : Prop where
  unique : s.NoTwoLive
  /-- whoever is live is in the map, or the holder of the lock is about to change that -/
  found : ∀ tp oid t, s.Live tp oid t →
    s.registered tp oid = some t ∨ (∃ i, s.calls i = .store tp oid t) ∨ t ∈ s.pending
  creating : ∀ i tp oid, s.calls i = .creating tp oid →
    s.holder = .call i ∧ ∀ t, ¬s.Live tp oid t
  storing : ∀ i tp oid t, s.calls i = .store tp oid t →
    s.holder = .call i ∧ ∀ t', s.Live tp oid t' → t' = t
  stopHolds : ∀ pending, s.stop = .stopping pending → s.holder = .stop
  emptied : s.holder ≠ .stop → s.pending = []

theorem kept_init : Kept init := by
  have hlive : ∀ {tp oid t}, ¬init.Live tp oid t := by
    rintro tp oid t ⟨info, hinfo, -⟩
    exact absurd hinfo (by simp [init])
  exact ⟨fun _ _ _ _ h => absurd h hlive, fun _ _ _ h => absurd h hlive,
    fun _ _ _ h => (nomatch h), fun _ _ _ _ h => (nomatch h), nofun, fun _ => rfl⟩

/-- With the lock free, whoever is live is in the map. -/
theorem Kept.registered_of_free (h : Kept s) (hfree : s.holder = .nobody) {tp : Int32} {oid : Int64}
    {t : Nat} (hlive : s.Live tp oid t) : s.registered tp oid = some t := by
  rcases h.found tp oid t hlive with hreg | ⟨i, hi⟩ | hpending
  · exact hreg
  · exact absurd ((h.storing i tp oid t hi).1.symm.trans hfree) nofun
  · rw [h.emptied (by rw [hfree]; nofun)] at hpending
    exact absurd hpending List.not_mem_nil

/-- A step of a call that is not in its critical section. -/
theorem Kept.setCall (h : Kept s) {i : Nat} {pc : TunnelPc} (hpc : ∀ tp oid, pc ≠ .creating tp oid)
    (hpc' : ∀ tp oid t, pc ≠ .store tp oid t) (hold : ∀ tp oid t, s.calls i ≠ .store tp oid t) :
    Kept (s.setCall i pc) := by
  refine ⟨h.unique, fun tp oid t hlive => ?_, fun j tp oid hj => ?_, fun j tp oid t hj => ?_,
    h.stopHolds, h.emptied⟩
  · rcases h.found tp oid t hlive with hreg | ⟨j, hj⟩ | hpending
    · exact Or.inl hreg
    · refine Or.inr (Or.inl ⟨j, ?_⟩)
      have hji : j ≠ i := by
        rintro rfl
        exact hold tp oid t hj
      rw [setCall_of_ne pc hji]
      exact hj
    · exact Or.inr (Or.inr hpending)
  · by_cases hji : j = i
    · subst hji
      rw [setCall_self] at hj
      exact absurd hj (hpc tp oid)
    · rw [setCall_of_ne pc hji] at hj
      exact h.creating j tp oid hj
  · by_cases hji : j = i
    · subst hji
      rw [setCall_self] at hj
      exact absurd hj (hpc' tp oid t)
    · rw [setCall_of_ne pc hji] at hj
      exact h.storing j tp oid t hj

/-- A step that leaves the calls and the lock alone. -/
theorem Kept.congr (h : Kept s) (hreg : ∀ tp oid, s'.registered tp oid = s.registered tp oid)
    (hlive : ∀ tp oid t, s'.Live tp oid t → s.Live tp oid t) (hcalls : s'.calls = s.calls)
    (hholder : s'.holder = s.holder) (hstop : s'.stop = s.stop) : Kept s' := by
  have hpending : s'.pending = s.pending := by unfold pending; rw [hstop]
  refine ⟨fun tp oid t t' ht ht' => h.unique tp oid t t' (hlive _ _ _ ht) (hlive _ _ _ ht'),
    fun tp oid t ht => ?_, fun i tp oid hi => ?_, fun i tp oid t hi => ?_, fun l hl => ?_, ?_⟩
  · rw [hreg, hcalls, hpending]
    exact h.found tp oid t (hlive _ _ _ ht)
  · rw [hcalls] at hi
    rw [hholder]
    exact ⟨(h.creating i tp oid hi).1, fun t ht => (h.creating i tp oid hi).2 t (hlive _ _ _ ht)⟩
  · rw [hcalls] at hi
    rw [hholder]
    exact ⟨(h.storing i tp oid t hi).1,
      fun t' ht' => (h.storing i tp oid t hi).2 t' (hlive _ _ _ ht')⟩
  · rw [hstop] at hl
    rw [hholder]
    exact h.stopHolds l hl
  · rw [hholder, hpending]
    exact h.emptied

theorem Kept.withGroup (h : Kept s) (tp : Int32) : Kept (s.withGroup tp) :=
  h.congr (registered_withGroup tp) (fun _ _ _ => (live_congr (withGroup_tunnels tp)).mp)
    (withGroup_calls tp) (withGroup_holder tp) (withGroup_stop tp)

/-- The second look with the lock found nothing, so nothing is live. -/
theorem Kept.locked (h : Kept s) {i : Nat} {tp : Int32} {oid : Int64}
    (hfree : s.holder = .nobody) (hmissing : s.tunnel tp oid = none) :
    Kept ({ s with holder := .call i }.setCall i (.creating tp oid)) := by
  have hnone : ∀ t, ¬s.Live tp oid t := fun t ht => by
    rw [tunnel_of_live (h.registered_of_free hfree ht) ht] at hmissing
    cases hmissing
  have hcalls : ∀ {j pc}, (s.setCall i (.creating tp oid)).calls j = pc → j ≠ i → s.calls j = pc :=
    fun hj hji => (setCall_of_ne _ hji).symm.trans hj
  refine ⟨h.unique, fun tp' oid' t ht => Or.inl (h.registered_of_free hfree ht),
    fun j tp' oid' hj => ?_, fun j tp' oid' t hj => ?_, fun l hl => ?_, fun _ => ?_⟩
  · by_cases hji : j = i
    · subst hji
      cases (setCall_self j (.creating tp oid)).symm.trans hj
      exact ⟨rfl, hnone⟩
    · exact absurd ((h.creating j tp' oid' (hcalls hj hji)).1.symm.trans hfree) nofun
  · by_cases hji : j = i
    · subst hji
      cases (setCall_self j (.creating tp oid)).symm.trans hj
    · exact absurd ((h.storing j tp' oid' t (hcalls hj hji)).1.symm.trans hfree) nofun
  · exact absurd ((h.stopHolds l hl).symm.trans hfree) nofun
  · exact h.emptied (by rw [hfree]; nofun)

/-- The holder of the lock leaves. -/
theorem Kept.unlock (h : Kept s) {i : Nat} (hholder : s.holder = .call i) {r : Except Err Nat}
    (hfound : ∀ tp oid t, s.Live tp oid t → s.registered tp oid = some t) :
    Kept ({ s with holder := .nobody }.setCall i (.returned r)) := by
  -- nobody else is in the critical section
  have hothers : ∀ {j}, s.holder = .call j → j = i := by
    intro j hj
    cases hholder.symm.trans hj
    rfl
  refine ⟨h.unique, fun tp oid t ht => Or.inl (hfound tp oid t ht), fun j tp oid hj => ?_,
    fun j tp oid t hj => ?_, fun l hl => ?_, fun _ => ?_⟩
  · by_cases hji : j = i
    · subst hji
      cases (setCall_self j (.returned r)).symm.trans hj
    · exact absurd (hothers (h.creating j tp oid ((setCall_of_ne _ hji).symm.trans hj)).1) hji
  · by_cases hji : j = i
    · subst hji
      cases (setCall_self j (.returned r)).symm.trans hj
    · exact absurd (hothers (h.storing j tp oid t ((setCall_of_ne _ hji).symm.trans hj)).1) hji
  · exact absurd ((h.stopHolds l hl).symm.trans hholder) nofun
  · exact h.emptied (by rw [hholder]; nofun)

theorem Kept.failed (h : Kept s) {i : Nat} {tp : Int32} {oid : Int64}
    (hcalls : s.calls i = .creating tp oid) {r : Except Err Nat} :
    Kept ({ s with holder := .nobody }.setCall i (.returned r)) := by
  obtain ⟨hholder, -⟩ := h.creating i tp oid hcalls
  refine h.unlock hholder fun tp' oid' t ht => ?_
  rcases h.found tp' oid' t ht with hreg | ⟨j, hj⟩ | hpending
  · exact hreg
  · cases hholder.symm.trans (h.storing j tp' oid' t hj).1
    cases hcalls.symm.trans hj
  · rw [h.emptied (by rw [hholder]; nofun)] at hpending
    exact absurd hpending List.not_mem_nil

theorem Kept.created (h : Kept s) {i : Nat} {tp : Int32} {oid : Int64}
    (hcalls : s.calls i = .creating tp oid) :
    Kept ((s.addTunnel tp oid).setCall i (.store tp oid s.tunnels.length)) := by
  obtain ⟨hholder, hnone⟩ := h.creating i tp oid hcalls
  have hothers : ∀ {j}, s.holder = .call j → j = i := by
    intro j hj
    cases hholder.symm.trans hj
    rfl
  -- the only live tunnel for these arguments is the new one
  have hnew : ∀ {t}, (s.addTunnel tp oid).Live tp oid t → t = s.tunnels.length := by
    intro t ht
    rcases live_addTunnel.mp ht with hlive | ⟨rfl, -, -⟩
    · exact absurd hlive (hnone t)
    · rfl
  have hold : ∀ {tp' oid' t}, (s.addTunnel tp oid).Live tp' oid' t → ¬(tp' = tp ∧ oid' = oid) →
      s.Live tp' oid' t := by
    intro tp' oid' t ht hne
    rcases live_addTunnel.mp ht with hlive | ⟨-, htp, hoid⟩
    · exact hlive
    · exact absurd ⟨htp, hoid⟩ hne
  refine ⟨fun tp' oid' t t' ht ht' => ?_, fun tp' oid' t ht => ?_, fun j tp' oid' hj => ?_,
    fun j tp' oid' t hj => ?_, h.stopHolds, h.emptied⟩
  · by_cases hkey : tp' = tp ∧ oid' = oid
    · obtain ⟨rfl, rfl⟩ := hkey
      exact (hnew ht).trans (hnew ht').symm
    · exact h.unique tp' oid' t t' (hold ht hkey) (hold ht' hkey)
  · by_cases hkey : tp' = tp ∧ oid' = oid
    · obtain ⟨rfl, rfl⟩ := hkey
      exact Or.inr (Or.inl ⟨i, by rw [setCall_self, hnew ht]⟩)
    · rcases h.found tp' oid' t (hold ht hkey) with hreg | ⟨j, hj⟩ | hpending
      · exact Or.inl hreg
      · obtain rfl := hothers (h.storing j tp' oid' t hj).1
        cases hcalls.symm.trans hj
      · exact Or.inr (Or.inr hpending)
  · by_cases hji : j = i
    · subst hji
      cases (setCall_self j (.store tp oid s.tunnels.length)).symm.trans hj
    · exact absurd (hothers (h.creating j tp' oid' ((setCall_of_ne _ hji).symm.trans hj)).1) hji
  · by_cases hji : j = i
    · subst hji
      cases (setCall_self j (.store tp oid s.tunnels.length)).symm.trans hj
      exact ⟨hholder, fun t' ht' => hnew ht'⟩
    · exact absurd (hothers (h.storing j tp' oid' t ((setCall_of_ne _ hji).symm.trans hj)).1) hji

theorem Kept.stored (h : Kept s) {i : Nat} {tp : Int32} {oid : Int64} {t : Nat}
    (hcalls : s.calls i = .store tp oid t) {r : Except Err Nat} :
    Kept ({ s.setTunnel tp oid t with holder := .nobody }.setCall i (.returned r)) := by
  obtain ⟨hholder, honly⟩ := h.storing i tp oid t hcalls
  have hfound : ∀ tp' oid' t', s.Live tp' oid' t' →
      (s.setTunnel tp oid t).registered tp' oid' = some t' := by
    intro tp' oid' t' ht'
    rw [registered_setTunnel]
    by_cases hkey : tp' = tp ∧ oid' = oid
    · obtain ⟨rfl, rfl⟩ := hkey
      rw [if_pos ⟨rfl, rfl⟩, honly t' ht']
    · rw [if_neg hkey]
      rcases h.found tp' oid' t' ht' with hreg | ⟨j, hj⟩ | hpending
      · exact hreg
      · cases hholder.symm.trans (h.storing j tp' oid' t' hj).1
        cases hcalls.symm.trans hj
        exact absurd ⟨rfl, rfl⟩ hkey
      · rw [h.emptied (by rw [hholder]; nofun)] at hpending
        exact absurd hpending List.not_mem_nil
  have hset : Kept (s.setTunnel tp oid t) :=
    ⟨h.unique, fun tp' oid' t' ht' => Or.inl (hfound tp' oid' t' ht'), h.creating, h.storing,
      h.stopHolds, h.emptied⟩
  exact hset.unlock hholder hfound

/-! ## `stop` -/

theorem Kept.stopLocked (h : Kept s) (hfree : s.holder = .nobody) :
    Kept { s with stop := .stopping [], holder := .stop } := by
  refine ⟨h.unique, fun tp oid t ht => Or.inl (h.registered_of_free hfree ht),
    fun i tp oid hi => ?_, fun i tp oid t hi => ?_, fun _ _ => rfl, fun hne => absurd rfl hne⟩
  · exact absurd ((h.creating i tp oid hi).1.symm.trans hfree) nofun
  · exact absurd ((h.storing i tp oid t hi).1.symm.trans hfree) nofun

theorem Kept.stopGroup (h : Kept s) {tp : Int32} {tg : TunnelGroup} (hstop : s.stop = .stopping [])
    (hgroup : s.tunnelGroups.lookup tp = some tg) :
    Kept { s with
      tunnelGroups := s.tunnelGroups.erase tp
      stop := .stopping (tg.entries.map Sigma.snd) } := by
  have hholder := h.stopHolds [] hstop
  refine ⟨h.unique, fun tp' oid t ht => ?_, h.creating, h.storing, fun _ _ => hholder,
    fun hne => absurd hholder hne⟩
  rcases h.found tp' oid t ht with hreg | hstore | hpending
  · by_cases htp : tp' = tp
    · -- the tunnel was in the group that is taken out
      subst htp
      unfold registered at hreg
      rw [hgroup, Option.bind_some] at hreg
      exact Or.inr (Or.inr (List.mem_map_of_mem (AList.mem_lookup_iff.mp hreg)))
    · refine Or.inl ?_
      unfold registered at hreg ⊢
      rwa [AList.lookup_erase_ne htp]
  · exact Or.inr (Or.inl hstore)
  · unfold pending at hpending
    rw [hstop] at hpending
    exact absurd hpending List.not_mem_nil

theorem Kept.stopTunnel (h : Kept s) {t : Nat} {l : List Nat} (hstop : s.stop = .stopping l) :
    Kept ({ s with stop := .stopping (l.erase t) }.modify t
      fun info => { info with stopping := true }) := by
  have hholder := h.stopHolds l hstop
  have hlive : ∀ tp oid t', ({ s with stop := .stopping (l.erase t) }.modify t
      fun info => { info with stopping := true }).Live tp oid t' → s.Live tp oid t' ∧ t' ≠ t := by
    intro tp oid t' ht'
    refine ⟨live_of_stopped (s := { s with stop := .stopping (l.erase t) }) ht', ?_⟩
    rintro rfl
    exact not_live_of_stopped ht'
  refine ⟨fun tp oid t₁ t₂ h₁ h₂ => h.unique tp oid t₁ t₂ (hlive _ _ _ h₁).1 (hlive _ _ _ h₂).1,
    fun tp oid t' ht' => ?_, fun i tp oid hi => ?_, fun i tp oid t' hi => ?_, fun _ _ => hholder,
    fun hne => absurd hholder hne⟩
  · obtain ⟨hold, hne⟩ := hlive tp oid t' ht'
    rcases h.found tp oid t' hold with hreg | hstore | hpending
    · exact Or.inl hreg
    · exact Or.inr (Or.inl hstore)
    · refine Or.inr (Or.inr ?_)
      unfold pending at hpending
      rw [hstop] at hpending
      exact (List.mem_erase_of_ne hne).mpr hpending
  · exact absurd ((h.creating i tp oid hi).1.symm.trans hholder) nofun
  · exact absurd ((h.storing i tp oid t' hi).1.symm.trans hholder) nofun

/-- When `stop` returns, no tunnel is live. -/
theorem Kept.none_live (h : Kept s) (hstop : s.stop = .stopping [])
    (hempty : s.tunnelGroups.entries = []) (tp : Int32) (oid : Int64) (t : Nat) :
    ¬s.Live tp oid t := by
  intro ht
  rcases h.found tp oid t ht with hreg | ⟨i, hi⟩ | hpending
  · unfold registered at hreg
    rw [AList.ext (t := ∅) hempty, AList.lookup_empty] at hreg
    cases hreg
  · exact absurd ((h.storing i tp oid t hi).1.symm.trans (h.stopHolds [] hstop)) nofun
  · unfold pending at hpending
    rw [hstop] at hpending
    exact absurd hpending List.not_mem_nil

theorem Kept.stopReturned (h : Kept s) (hstop : s.stop = .stopping [])
    (hempty : s.tunnelGroups.entries = []) :
    Kept { s with stop := .returned, holder := .nobody } := by
  have hnone := h.none_live hstop hempty
  have hholder := h.stopHolds [] hstop
  refine ⟨h.unique, fun tp oid t ht => absurd ht (hnone tp oid t), fun i tp oid hi => ?_,
    fun i tp oid t hi => ?_, nofun, fun _ => rfl⟩
  · exact absurd ((h.creating i tp oid hi).1.symm.trans hholder) nofun
  · exact absurd ((h.storing i tp oid t hi).1.symm.trans hholder) nofun

/-- **Every step keeps the invariant.** -/
theorem kept_step {a : TunnelsAct} (h : Kept s) (hstep : s.step a = some s') : Kept s' := by
  cases step_effect hstep with
  | began pc calls next next' => exact h.setCall next next' (by rw [calls]; nofun)
  | looked pc calls next next' => exact h.setCall next next' (by rw [calls]; nofun)
  | found t calls =>
    exact (h.withGroup _).setCall nofun nofun (by rw [withGroup_calls, calls]; nofun)
  | @locked i tp oid calls free missing =>
    refine (h.withGroup tp).locked ((withGroup_holder tp).trans free) ?_
    rw [tunnel_congr (registered_withGroup tp) (withGroup_tunnels tp)]
    exact missing
  | failed e calls => exact h.failed calls
  | created calls => exact h.created calls
  | stored calls => exact h.stored calls
  | stopLocked stop free => exact h.stopLocked free
  | stopGroup stop group => exact h.stopGroup stop group
  | stopTunnel stop => exact h.stopTunnel stop
  | stopReturned stop empty => exact h.stopReturned stop empty
  | ctxEnd => exact h.congr (fun _ _ => rfl) (fun _ _ _ => id) rfl rfl rfl
  | scWent => exact h
  | scExited => exact h.congr (fun _ _ => rfl) (fun _ _ _ => live_of_exited) rfl rfl rfl
  | ended => exact h.congr (fun _ _ => rfl) (fun _ _ _ => live_of_stopped) rfl rfl rfl

/-! ## One live tunnel per object -/

theorem createsOnlyMissing_step {a : TunnelsAct} (h : Kept s) (hstep : s.step a = some s') :
    CreatesOnlyMissing s a s' := fun i tp oid _ hi => ((kept_step h hstep).creating i tp oid hi).2

theorem failureKeepsLookups_step {a : TunnelsAct} (hstep : s.step a = some s') :
    FailureKeepsLookups s a s' := by
  intro hact tp oid
  cases step_effect hstep with
  | began | looked | failed => rfl
  | found | locked =>
    show (s.withGroup _).tunnel tp oid = s.tunnel tp oid
    exact tunnel_congr (registered_withGroup _) (withGroup_tunnels _) tp oid
  | created | stored | stopLocked | stopGroup | stopTunnel | stopReturned | ctxEnd | scWent |
    scExited | ended => exact absurd hact id

/--
**In every run of any number of calls of `Tunnel`, with tunnels that end at any time: no two tunnels
for one type and object id are live, `create` is called only when none is, and a call that fails
changes no lookup.**
-/
theorem one_live_tunnel (acts : List TunnelsAct) :
    EachState step NoTwoLive init acts ∧ EachStep step CreatesOnlyMissing init acts ∧
      EachStep step FailureKeepsLookups init acts := by
  have hinv : ∀ {Q : TunnelsRun → TunnelsAct → TunnelsRun → Prop},
      (∀ s a s', Kept s → s.step a = some s' → Q s a s') → EachStep step Q init acts :=
    fun hQ => eachStep_of_inv (I := Kept)
      (fun s a s' hk hs => ⟨hQ s a s' hk hs, kept_step hk hs⟩) kept_init
  exact ⟨⟨kept_init.unique, hinv fun s a s' hk hs => (kept_step hk hs).unique⟩,
    hinv fun s a s' hk hs => createsOnlyMissing_step hk hs,
    hinv fun s a s' hk hs => failureKeepsLookups_step hs⟩

/-! ## After `stop` -/

/-- Once `stop` has returned, no tunnel is live. -/
def NoneOutlives (s : TunnelsRun) : Prop :=
  s.stop = .returned → ∀ tp oid t, ¬s.Live tp oid t

/-- `create` does not return a tunnel after `stop` has returned. -/
def CreatesBeforeStop (s : TunnelsRun) (a : TunnelsAct) : Prop :=
  ∀ i, a = .create i none → s.stop ≠ .returned

theorem NoneOutlives.congr (h : NoneOutlives s) (hstop : s'.stop = s.stop)
    (hlive : ∀ tp oid t, s'.Live tp oid t → s.Live tp oid t) : NoneOutlives s' :=
  fun hs' tp oid t ht => h (hstop.symm.trans hs') tp oid t (hlive tp oid t ht)

theorem noneOutlives_step {a : TunnelsAct} (hk : Kept s) (h : NoneOutlives s)
    (hC : CreatesBeforeStop s a) (hstep : s.step a = some s') : NoneOutlives s' := by
  cases step_effect hstep with
  | began | looked | failed | stored | ctxEnd => exact h.congr rfl fun _ _ _ => id
  | found | locked =>
    exact h.congr (withGroup_stop _) fun _ _ _ => (live_congr (withGroup_tunnels _)).mp
  | created => exact fun hs' => absurd hs' (hC _ rfl)
  | stopLocked | stopGroup | stopTunnel => exact nofun
  | stopReturned stop empty => exact fun _ => hk.none_live stop empty
  | scWent => exact h
  | scExited => exact h.congr rfl fun _ _ _ => live_of_exited
  | ended => exact h.congr rfl fun _ _ _ => live_of_stopped

/--
**Once `stop` has returned every tunnel is stopping, in every state of a run, exactly when the run
has no call that creates a tunnel after that.** A call that was between its two looks when `stop`
took the lock is such a call, and so is every call that comes later.
-/
theorem none_outlives_iff (acts : List TunnelsAct) :
    EachState step NoneOutlives init acts ↔
      EachStep step (fun s a _ => CreatesBeforeStop s a) init acts := by
  refine eachState_iff_of_step (I := fun s _ => Kept s) ?_ ?_ kept_init nofun
  · exact fun s a s' _ hk hstep => kept_step hk hstep
  · intro s a s' _ hk h hstep
    refine ⟨?_, fun hC => noneOutlives_step hk h hC hstep⟩
    rintro h' i rfl hstop
    cases step_effect hstep with
    | @created _ tp oid calls =>
      exact h' hstop tp oid s.tunnels.length (live_addTunnel.mpr (Or.inr ⟨rfl, rfl, rfl⟩))

/-- Once `stop` has returned, every tunnel in `tunnelGroups` is stopping. -/
def RegisteredStopping (s : TunnelsRun) : Prop :=
  s.stop = .returned → ∀ tp oid t, s.registered tp oid = some t → s.onStopping t = true

/-- A tunnel that is put into the map after `stop` has returned is stopping already. -/
def StoresBeforeStop (s : TunnelsRun) (a : TunnelsAct) : Prop :=
  ∀ i tp oid t, a = .store i → s.calls i = .store tp oid t → s.stop = .returned →
    s.onStopping t = true

theorem RegisteredStopping.congr (h : RegisteredStopping s) (hstop : s'.stop = s.stop)
    (hreg : ∀ tp oid, s'.registered tp oid = s.registered tp oid)
    (hkept : ∀ t, s.onStopping t = true → s'.onStopping t = true) : RegisteredStopping s' := by
  intro hs' tp oid t ht
  rw [hreg] at ht
  exact hkept t (h (hstop.symm.trans hs') tp oid t ht)

theorem onStopping_eq_true_iff {t : Nat} :
    s.onStopping t = true ↔ ∃ info, s.tunnels[t]? = some info ∧ info.stopping = true := by
  unfold onStopping
  cases s.tunnels[t]? <;> simp

theorem onStopping_addTunnel {tp : Int32} {oid : Int64} {t : Nat} (h : s.onStopping t = true) :
    (s.addTunnel tp oid).onStopping t = true := by
  obtain ⟨info, hinfo, hstopping⟩ := onStopping_eq_true_iff.mp h
  have hlt := (List.getElem?_eq_some_iff.mp hinfo).1
  exact onStopping_eq_true_iff.mpr
    ⟨info, (List.getElem?_append_left hlt).trans hinfo, hstopping⟩

theorem onStopping_modify {t t' : Nat} {f : TunnelInfo → TunnelInfo}
    (hf : ∀ info, info.stopping = true → (f info).stopping = true) (h : s.onStopping t = true) :
    (s.modify t' f).onStopping t = true := by
  obtain ⟨info, hinfo, hstopping⟩ := onStopping_eq_true_iff.mp h
  refine onStopping_eq_true_iff.mpr ⟨if t' = t then f info else info, ?_, ?_⟩
  · show (s.tunnels.modify t' f)[t]? = _
    rw [List.getElem?_modify, hinfo]
    split <;> rfl
  · split
    · exact hf info hstopping
    · exact hstopping

theorem registeredStopping_step_iff {a : TunnelsAct} (h : RegisteredStopping s)
    (hstep : s.step a = some s') : RegisteredStopping s' ↔ StoresBeforeStop s a := by
  cases step_effect hstep with
  | began | looked | failed | ctxEnd =>
    exact iff_of_true (h.congr rfl (fun _ _ => rfl) fun _ => id) nofun
  | found | locked =>
    refine iff_of_true (h.congr (withGroup_stop _) (registered_withGroup _) fun t ht => ?_) nofun
    show (s.withGroup _).onStopping t = true
    rw [onStopping, withGroup_tunnels]
    exact ht
  | created =>
    exact iff_of_true (h.congr rfl (fun _ _ => rfl) fun _ => onStopping_addTunnel) nofun
  | @stored i tp oid t calls =>
    constructor
    · rintro h' _ tp' oid' t' ⟨⟩ hcall hstop
      cases calls.symm.trans hcall
      refine h' hstop tp oid t ?_
      exact (registered_setTunnel ..).trans (if_pos ⟨rfl, rfl⟩)
    · intro hC hstop tp' oid' t' ht'
      have hreg := (registered_setTunnel tp tp' oid oid' t).symm.trans ht'
      split at hreg
      · cases hreg
        exact hC i tp oid t rfl calls hstop
      · exact h hstop tp' oid' t' hreg
  | stopLocked | stopGroup | stopTunnel => exact iff_of_true nofun nofun
  | stopReturned stop empty =>
    refine iff_of_true (fun _ tp oid t ht => ?_) nofun
    change (s.tunnelGroups.lookup tp).bind _ = some t at ht
    rw [AList.ext (t := ∅) empty, AList.lookup_empty] at ht
    cases ht
  | scWent => exact iff_of_true h nofun
  | scExited =>
    exact iff_of_true (h.congr rfl (fun _ _ => rfl) fun _ => onStopping_modify fun _ => id) nofun
  | ended =>
    exact iff_of_true
      (h.congr rfl (fun _ _ => rfl) fun _ => onStopping_modify fun _ _ => rfl) nofun

/--
**Once `stop` has returned every tunnel in `tunnelGroups` is stopping, in every state of a run,
exactly when the run puts no live tunnel there after that.**
-/
theorem registered_stopping_iff (acts : List TunnelsAct) :
    EachState step RegisteredStopping init acts ↔
      EachStep step (fun s a _ => StoresBeforeStop s a) init acts :=
  eachState_iff_of_step (I := fun _ _ => True) (fun _ _ _ _ _ _ => trivial)
    (fun _ _ _ _ _ h hstep => registeredStopping_step_iff h hstep) trivial nofun

/-- A tunnel that nothing but its own `SCHandle` can bring to an end. -/
def Stranded (s : TunnelsRun) (tp : Int32) (oid : Int64) (t : Nat) : Prop :=
  s.stop = .returned ∧
    s.tunnels[t]? = some { tp := tp, oid := oid, stopping := false, scExited := false }

theorem stranded_step {a : TunnelsAct} {tp : Int32} {oid : Int64} {t : Nat}
    (h : s.Stranded tp oid t) (ha : ∀ ok, a ≠ .scHandle t ok) (hstep : s.step a = some s') :
    s'.Stranded tp oid t := by
  obtain ⟨hstop, ht⟩ := h
  have hmodify : ∀ {t' f}, t' ≠ t → (s.modify t' f).Stranded tp oid t := by
    intro t' f hne
    exact ⟨hstop, (List.getElem?_modify_ne _ _ hne).trans ht⟩
  cases step_effect hstep with
  | began | looked | failed | stored | ctxEnd => exact ⟨hstop, ht⟩
  | found | locked =>
    exact ⟨(withGroup_stop _).trans hstop, (congrArg (·[t]?) (withGroup_tunnels _)).trans ht⟩
  | created =>
    exact ⟨hstop, (List.getElem?_append_left (List.getElem?_eq_some_iff.mp ht).1).trans ht⟩
  | stopLocked stop => cases stop.symm.trans hstop
  | stopGroup stop => cases stop.symm.trans hstop
  | stopTunnel stop => cases stop.symm.trans hstop
  | stopReturned stop => cases stop.symm.trans hstop
  | scWent => exact ⟨hstop, ht⟩
  | @scExited t' ok =>
    refine hmodify ?_
    rintro rfl
    exact ha ok rfl
  | @ended t' info hinfo exited =>
    refine hmodify ?_
    rintro rfl
    cases ht.symm.trans hinfo
    cases exited

/-- **Neither `stop` nor the end of the context ends a stranded tunnel.** -/
theorem stranded_run {acts : List TunnelsAct} {tp : Int32} {oid : Int64} {t : Nat}
    (h : s.Stranded tp oid t) (hacts : ∀ a ∈ acts, ∀ ok, a ≠ .scHandle t ok)
    (hrun : run step s acts = some s') : s'.Stranded tp oid t := by
  induction acts generalizing s with
  | nil => cases hrun; exact h
  | cons a acts ih =>
    obtain ⟨s₁, hs₁, hrest⟩ := run_cons_eq_some.mp hrun
    exact ih (stranded_step h (hacts a List.mem_cons_self) hs₁)
      (fun b hb => hacts b (List.mem_cons_of_mem a hb)) hrest

/--
A call of `Tunnel` finds no tunnel, `stop` takes the lock and returns, and the call goes on. Its
tunnel is registered, and in every continuation it is live for as long as its `SCHandle` blocks.
-/
theorem tunnel_outlives_stop :
    ∃ s, run step init [.call 0 (.ok 1) 7, .lookup 0, .stopLock, .stopReturn, .lock 0,
        .create 0 none, .store 0] = some s ∧
      s.stop = .returned ∧ s.registered 1 7 = some 0 ∧ s.onStopping 0 = false ∧
      ∀ acts s', (∀ a ∈ acts, ∀ ok, a ≠ .scHandle 0 ok) → run step s acts = some s' →
        s'.Live 1 7 0 := by
  refine ⟨_, rfl, ?_⟩
  refine ⟨rfl, rfl, rfl, fun acts s' hacts hrun => ?_⟩
  obtain ⟨-, ht⟩ := stranded_run ⟨rfl, rfl⟩ hacts hrun
  exact ⟨_, ht, rfl, rfl, rfl⟩

end TunnelsRun

end FabricaNet.Internal
