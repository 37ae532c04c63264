import FabricaNet.Go.StopAll
import FabricaNet.Internal.BaseClient
import FabricaNet.Lib.Run

/-!
# The dialogs of a client over whole runs

`Start` and `Stop` of `internal/client.go` with the goroutines they start, as steps: any number of
calls of both, beside the goroutine of every dialog. `d.start` may return at any time; the function
passed to `GoAndStop` then deletes the entry and stops the dialog.

* The ids of a client's dialogs depend on its own id and on the index alone, so a second `Start`
  stores its dialogs under the ids of the first. A dialog that runs is found under its id exactly
  as long as no `Store` replaces the entry of one that runs (`eachState_findable_iff`).
* `Stop` stops what its `Range` comes upon. With one `Start`, and a `Stop` that comes after its last
  `Store`, that is every dialog that does not stop itself (`found_and_stopped`).
* `Stop` has no guard against a second call: it closes `receivedPackChan`, so that only one call
  returns and every later one panics (`one_stop_returns`).
-/

namespace FabricaNet.Internal

open Go Lib Client

/-- Where the goroutine of a dialog is. -/
inductive ClientDialogPc where
  /-- in `d.start` -/
  | start
  /-- `c.dialogMap.Delete(wrapper.ID)` -/
  | delete
  /-- `d.stop()` -/
  | stop
  | ended
deriving DecidableEq, Repr

/-- A dialog that a call of `Start` has made. -/
structure ClientDialog where
  id : UInt64
  /-- `GoAndStop` has been called -/
  started : Bool
  pc : ClientDialogPc
  /-- `d.stop` has been called, by whomever -/
  stopped : Bool
deriving DecidableEq, Repr

/-- Where a call of `Start` is. -/
inductive ClientStartPc where
  /-- at the head of the loop -/
  | loop (wrappers : List ConnCarrier)
  /-- `d.GoAndStop`, for the `n`-th dialog -/
  | goAndStop (n : Nat) (wrappers : List ConnCarrier)
  | returned
  | failed (err : Err)
  /-- `Dial` has panicked -/
  | panicked

/-- Where a call of `Stop` is. -/
inductive ClientStopPc where
  /-- up to the return of `wg.Wait`; then `c.dialer.Stop` is next -/
  | stopAll (p : StopAll UInt64 Nat)
  /-- `close(c.receivedPackChan)` -/
  | close
  | returned
  | panicked
deriving DecidableEq, Repr

/-- A client. In the map a dialog is given by its position. -/
structure ClientRun where
  id : Int64
  dialer : Transport
  target : String
  dialogMap : SyncMap UInt64 Nat
  /-- `receivedPackChan` is closed -/
  closed : Bool
  dialogs : List ClientDialog
  starts : List ClientStartPc
  stops : List ClientStopPc

inductive ClientRunAct where
  /-- a call of `Start`, up to the return of `Dial` -/
  | callStart (net : Net)
  /-- the next step of the `i`-th call of `Start` -/
  | start (i : Nat)
  /-- the next step of the goroutine of the `n`-th dialog -/
  | dialog (n : Nat)
  /-- a call of `Stop`, up to the call of `Range` -/
  | callStop
  /-- `Range` in the `j`-th call of `Stop` visits an entry -/
  | visit (j : Nat) (key : UInt64) (value : Nat)
  /-- the function passed to `xsync.Timeout` stops its dialog and calls `wg.Done` -/
  | stopDialog (j n : Nat)
  /-- the next step of the `j`-th call of `Stop` -/
  | stop (j : Nat)

namespace ClientStopPc

/-- `Range` hears of a new entry. -/
def stored (key : UInt64) (value : Nat) : ClientStopPc → ClientStopPc
  | .stopAll p => .stopAll (p.stored key value)
  | pc => pc

/-- `Range` hears of a deletion. -/
def deleted (key : UInt64) : ClientStopPc → ClientStopPc
  | .stopAll p => .stopAll (p.deleted key)
  | pc => pc

def visit (key : UInt64) (value : Nat) : ClientStopPc → Option ClientStopPc
  | .stopAll p => (p.visit key value).map .stopAll
  | _ => none

def done (n : Nat) : ClientStopPc → Option ClientStopPc
  | .stopAll p => (p.done n).map .stopAll
  | _ => none

/-- The other steps of `Stop`, up to the one that closes the channel. -/
def next : ClientStopPc → Option ClientStopPc
  | .stopAll .waited => some .close
  | .stopAll p => p.next.map .stopAll
  | _ => none

end ClientStopPc

namespace ClientRun

/-- What `NewBaseClient` builds. -/
def init (id : Int64) (dialer : Transport) (target : String) : ClientRun where
  id := id
  dialer := dialer
  target := target
  dialogMap := SyncMap.empty
  closed := false
  dialogs := []
  starts := []
  stops := []

def startStep (s : ClientRun) (i : Nat) : ClientStartPc → Option ClientRun
  | .loop [] => some { s with starts := s.starts.set i .returned }
  | .loop (w :: ws) => some { s with
      dialogMap := s.dialogMap.store w.id s.dialogs.length
      dialogs := s.dialogs ++ [{ id := w.id, started := false, pc := .start, stopped := false }]
      starts := s.starts.set i (.goAndStop s.dialogs.length ws)
      stops := s.stops.map (·.stored w.id s.dialogs.length) }
  | .goAndStop n ws => s.dialogs[n]?.map fun d => { s with
      dialogs := s.dialogs.set n { d with started := true }
      starts := s.starts.set i (.loop ws) }
  | .returned | .failed _ | .panicked => none

def dialogStep (s : ClientRun) (n : Nat) (d : ClientDialog) : Option ClientRun :=
  if d.started then
    match d.pc with
    | .start => some { s with dialogs := s.dialogs.set n { d with pc := .delete } }
    | .delete => some { s with
        dialogMap := s.dialogMap.delete d.id
        dialogs := s.dialogs.set n { d with pc := .stop }
        stops := s.stops.map (·.deleted d.id) }
    | .stop => some { s with dialogs := s.dialogs.set n { d with pc := .ended, stopped := true } }
    | .ended => none
  else none

def stopStep (s : ClientRun) (j : Nat) : ClientStopPc → Option ClientRun
  | .close =>
    -- the close of a closed channel panics
    if s.closed then some { s with stops := s.stops.set j .panicked }
    else some { s with stops := s.stops.set j .returned, closed := true }
  | pc => pc.next.map fun pc' => { s with stops := s.stops.set j pc' }

def step (s : ClientRun) : ClientRunAct → Option ClientRun
  | .callStart net =>
    match s.dialer.dial s.id s.target net with
    | none => some { s with starts := s.starts ++ [.panicked] }
    | some (.error err) =>
      let err := .wrap err ("connect failed. target=" ++ s.target)
      some { s with starts := s.starts ++ [.failed err] }
    | some (.ok wrappers) => some { s with starts := s.starts ++ [.loop wrappers] }
  | .start i => s.starts[i]?.bind (s.startStep i)
  | .dialog n => s.dialogs[n]?.bind (s.dialogStep n)
  | .callStop => some { s with stops := s.stops ++ [.stopAll (StopAll.start s.dialogMap)] }
  | .visit j key value =>
    s.stops[j]?.bind fun pc => (pc.visit key value).map fun pc' =>
      { s with stops := s.stops.set j pc' }
  | .stopDialog j n =>
    s.stops[j]?.bind fun pc => (pc.done n).bind fun pc' => s.dialogs[n]?.map fun d =>
      { s with
        dialogs := s.dialogs.set n { d with stopped := true }
        stops := s.stops.set j pc' }
  | .stop j => s.stops[j]?.bind (s.stopStep j)

end ClientRun

/-! ## The dialogs -/

namespace ClientDialog

/-- Its goroutine has not come to `Delete`. -/
def live (d : ClientDialog) : Bool := d.pc = .start || d.pc = .delete

/-- What a step can do to a dialog. -/
structure Leads (d d' : ClientDialog) : Prop where
  id : d'.id = d.id
  live : d'.live = true → d.live = true
  stopped : d.stopped = true → d'.stopped = true
  ended : d'.pc = .ended → d'.stopped = true ∨ d.pc = .ended

theorem Leads.refl (d : ClientDialog) : d.Leads d where
  id := rfl
  live := fun h => h
  stopped := fun h => h
  ended := .inr

theorem leads_started (d : ClientDialog) : d.Leads { d with started := true } where
  id := rfl
  live := fun h => h
  stopped := fun h => h
  ended := .inr

theorem leads_stopped (d : ClientDialog) : d.Leads { d with stopped := true } where
  id := rfl
  live := fun h => h
  stopped := fun _ => rfl
  ended := .inr

theorem leads_delete {d : ClientDialog} (h : d.pc = .start) : d.Leads { d with pc := .delete } where
  id := rfl
  live := by simp [live, h]
  stopped := fun h => h
  ended := nofun

theorem leads_stop {d : ClientDialog} : d.Leads { d with pc := .stop } where
  id := rfl
  live := nofun
  stopped := fun h => h
  ended := nofun

theorem leads_ended (d : ClientDialog) : d.Leads { d with pc := .ended, stopped := true } where
  id := rfl
  live := nofun
  stopped := fun _ => rfl
  ended := fun _ => .inl rfl

variable {ds : List ClientDialog} {d d' e' : ClientDialog} {m n : Nat}

/-- After a step of one dialog every dialog comes from the one in its place. -/
theorem exists_leads_of_set (hat : ds[n]? = some d) (hl : d.Leads d')
    (he : (ds.set n d')[m]? = some e') : ∃ e, ds[m]? = some e ∧ e.Leads e' := by
  rw [List.getElem?_set] at he
  split at he
  · next hm =>
    subst hm
    obtain ⟨-, ⟨⟩⟩ := Option.ite_none_right_eq_some.mp he
    exact ⟨d, hat, hl⟩
  · exact ⟨e', he, .refl e'⟩

/-- The `n`-th dialog is stopped. -/
def StoppedAt (ds : List ClientDialog) (n : Nat) : Prop :=
  ∃ d, ds[n]? = some d ∧ d.stopped = true

theorem stoppedAt_set (hat : ds[n]? = some d) (h : d'.stopped = true) :
    StoppedAt (ds.set n d') n :=
  ⟨d', List.getElem?_set_self (List.getElem?_eq_some_iff.mp hat).1, h⟩

theorem StoppedAt.set (h : StoppedAt ds m) (hat : ds[n]? = some d) (hl : d.Leads d') :
    StoppedAt (ds.set n d') m := by
  obtain ⟨e, he, hstop⟩ := h
  by_cases hm : n = m
  · subst hm
    cases hat.symm.trans he
    exact stoppedAt_set hat (hl.stopped hstop)
  · exact ⟨e, (List.getElem?_set_ne hm).trans he, hstop⟩

/-- No step changes an id. -/
theorem map_id_set (hat : ds[n]? = some d) (hl : d.Leads d') :
    (ds.set n d').map ClientDialog.id = ds.map ClientDialog.id := by
  obtain ⟨hn, rfl⟩ := List.getElem?_eq_some_iff.mp hat
  have hn' : n < (ds.map ClientDialog.id).length := by simpa using hn
  have hget : ds[n].id = (ds.map ClientDialog.id)[n] := by simp
  rw [List.map_set, hl.id, hget, List.set_getElem_self]

end ClientDialog

/-! ## The effects of a step -/

/-- The carriers that a call of `Start` has still to store. -/
def ClientStartPc.wrappers : ClientStartPc → List ConnCarrier
  | .loop ws | .goAndStop _ ws => ws
  | .returned | .failed _ | .panicked => []

namespace ClientRun

variable {s s' : ClientRun} {a : ClientRunAct}

/-- What an action does to the map, the dialogs and the calls of `Stop`. -/
inductive Effect (s : ClientRun) : ClientRunAct → ClientRun → Prop
  | callStart (net : Net) {pc : ClientStartPc} (ids : (pc.wrappers.map (·.id)).Nodup) :
      Effect s (.callStart net) { s with starts := s.starts ++ [pc] }
  | startReturns {i : Nat} (at_ : s.starts[i]? = some (.loop [])) :
      Effect s (.start i) { s with starts := s.starts.set i .returned }
  | store {i : Nat} {w : ConnCarrier} {ws : List ConnCarrier}
      (at_ : s.starts[i]? = some (.loop (w :: ws))) : Effect s (.start i) { s with
      dialogMap := s.dialogMap.store w.id s.dialogs.length
      dialogs := s.dialogs ++ [{ id := w.id, started := false, pc := .start, stopped := false }]
      starts := s.starts.set i (.goAndStop s.dialogs.length ws)
      stops := s.stops.map (·.stored w.id s.dialogs.length) }
  | goAndStop {i n : Nat} {ws : List ConnCarrier} {d : ClientDialog}
      (at_ : s.starts[i]? = some (.goAndStop n ws)) (dialog : s.dialogs[n]? = some d) :
      Effect s (.start i) { s with
      dialogs := s.dialogs.set n { d with started := true }
      starts := s.starts.set i (.loop ws) }
  | dialog {n : Nat} {d d' : ClientDialog} (dialog : s.dialogs[n]? = some d) (leads : d.Leads d') :
      Effect s (.dialog n) { s with dialogs := s.dialogs.set n d' }
  | delete {n : Nat} {d : ClientDialog} (dialog : s.dialogs[n]? = some d) (pc : d.pc = .delete) :
      Effect s (.dialog n) { s with
      dialogMap := s.dialogMap.delete d.id
      dialogs := s.dialogs.set n { d with pc := .stop }
      stops := s.stops.map (·.deleted d.id) }
  | callStop : Effect s .callStop { s with
      stops := s.stops ++ [.stopAll (StopAll.start s.dialogMap)] }
  | visit {j : Nat} {key : UInt64} {value : Nat} {pc pc' : ClientStopPc}
      (at_ : s.stops[j]? = some pc) (visit : pc.visit key value = some pc') :
      Effect s (.visit j key value) { s with stops := s.stops.set j pc' }
  | stopDialog {j n : Nat} {pc pc' : ClientStopPc} {d : ClientDialog}
      (at_ : s.stops[j]? = some pc) (done : pc.done n = some pc')
      (dialog : s.dialogs[n]? = some d) :
      Effect s (.stopDialog j n) { s with
      dialogs := s.dialogs.set n { d with stopped := true }
      stops := s.stops.set j pc' }
  | next {j : Nat} {pc pc' : ClientStopPc} (at_ : s.stops[j]? = some pc)
      (next : pc.next = some pc') : Effect s (.stop j) { s with stops := s.stops.set j pc' }
  | close {j : Nat} (at_ : s.stops[j]? = some .close) (open_ : s.closed = false) :
      Effect s (.stop j) { s with stops := s.stops.set j .returned, closed := true }
  | closeAgain {j : Nat} (at_ : s.stops[j]? = some .close) (closed : s.closed = true) :
      Effect s (.stop j) { s with stops := s.stops.set j .panicked }

theorem effect_startStep {i : Nat} {pc : ClientStartPc} (at_ : s.starts[i]? = some pc)
    (h : s.startStep i pc = some s') : Effect s (.start i) s' := by
  cases pc with
  | loop ws =>
    cases ws with
    | nil => cases h; exact .startReturns at_
    | cons w ws => cases h; exact .store at_
  | goAndStop n ws =>
    obtain ⟨d, hd, ⟨⟩⟩ := Option.map_eq_some_iff.mp h
    exact .goAndStop at_ hd
  | returned | failed err | panicked => cases h

theorem effect_dialogStep {n : Nat} {d : ClientDialog} (hd : s.dialogs[n]? = some d)
    (h : s.dialogStep n d = some s') : Effect s (.dialog n) s' := by
  obtain ⟨-, h⟩ := Option.ite_none_right_eq_some.mp h
  split at h
  · next hpc =>
    cases h
    exact .dialog hd (ClientDialog.leads_delete hpc)
  · next hpc => cases h; exact .delete hd hpc
  · cases h
    exact .dialog hd d.leads_ended
  · cases h

theorem effect_stopStep {j : Nat} {pc : ClientStopPc} (at_ : s.stops[j]? = some pc)
    (h : s.stopStep j pc = some s') : Effect s (.stop j) s' := by
  cases pc with
  | close =>
    simp only [stopStep] at h
    split at h
    · next hc => cases h; exact .closeAgain at_ hc
    · next hc => cases h; exact .close at_ (Bool.eq_false_iff.mpr hc)
  | stopAll p =>
    simp only [stopStep, Option.map_eq_some_iff] at h
    obtain ⟨pc', hnext, rfl⟩ := h
    exact .next at_ hnext
  | returned | panicked => cases h

/-- **Every step has one of the effects.** -/
theorem step_effect (h : s.step a = some s') : Effect s a s' := by
  cases a with
  | callStart net =>
    simp only [step] at h
    split at h
    · cases h
      exact .callStart net List.nodup_nil
    · cases h
      exact .callStart net List.nodup_nil
    · next hdial =>
      cases h
      have hws := Transport.eq_of_dial_eq_ok hdial
      exact .callStart net (by rw [ClientStartPc.wrappers, hws]; exact BaseClient.nodup_ids ..)
  | start i =>
    obtain ⟨pc, hpc, h⟩ := Option.bind_eq_some_iff.mp h
    exact effect_startStep hpc h
  | dialog n =>
    obtain ⟨d, hd, h⟩ := Option.bind_eq_some_iff.mp h
    exact effect_dialogStep hd h
  | callStop => cases h; exact .callStop
  | visit j key value =>
    obtain ⟨pc, hpc, h⟩ := Option.bind_eq_some_iff.mp h
    obtain ⟨pc', hvisit, ⟨⟩⟩ := Option.map_eq_some_iff.mp h
    exact .visit hpc hvisit
  | stopDialog j n =>
    obtain ⟨pc, hpc, h⟩ := Option.bind_eq_some_iff.mp h
    obtain ⟨pc', hdone, h⟩ := Option.bind_eq_some_iff.mp h
    obtain ⟨d, hd, ⟨⟩⟩ := Option.map_eq_some_iff.mp h
    exact .stopDialog hpc hdone hd
  | stop j =>
    obtain ⟨pc, hpc, h⟩ := Option.bind_eq_some_iff.mp h
    exact effect_stopStep hpc h

/-! ## Finding a dialog -/

/-- `Dialog` finds every dialog whose goroutine has not deleted it. -/
def Findable (s : ClientRun) : Prop :=
  ∀ n d, s.dialogs[n]? = some d → d.live = true → s.dialogMap.load d.id = some n

/-- The carrier whose dialog the action stores. -/
def storing (s : ClientRun) : ClientRunAct → Option ConnCarrier
  | .start i =>
    match s.starts[i]? with
    | some (.loop (w :: _)) => some w
    | _ => none
  | _ => none

/-- A `Store` replaces the entry of no dialog that is live. -/
def fresh (s : ClientRun) (a : ClientRunAct) : Bool :=
  (s.storing a).all fun w => s.dialogs.all fun d => d.id ≠ w.id || !d.live

theorem storing_of_at {i : Nat} {w : ConnCarrier} {ws : List ConnCarrier}
    (h : s.starts[i]? = some (.loop (w :: ws))) : s.storing (.start i) = some w := by
  simp only [storing, h]

theorem at_of_storing {w : ConnCarrier} (h : s.storing a = some w) :
    ∃ i ws, a = .start i ∧ s.starts[i]? = some (.loop (w :: ws)) := by
  cases a with
  | start i =>
    simp only [storing] at h
    split at h
    · next at_ => cases h; exact ⟨i, _, rfl, at_⟩
    · cases h
  | callStart | dialog | callStop | visit | stopDialog | stop => cases h

theorem fresh_of_storing_none (h : s.storing a = none) : s.fresh a = true := by
  simp only [fresh, h, Option.all_none]

theorem fresh_iff {w : ConnCarrier} (h : s.storing a = some w) :
    s.fresh a = true ↔ ∀ d ∈ s.dialogs, d.id = w.id → d.live = false := by
  simp only [fresh, h, Option.all_some, List.all_eq_true, Bool.or_eq_true, decide_eq_true_eq,
    Bool.not_eq_true', ne_eq, imp_iff_not_or]

theorem Findable.set {n : Nat} {d d' : ClientDialog} (h : Findable s) (hd : s.dialogs[n]? = some d)
    (hl : d.Leads d') {m : Nat} {e' : ClientDialog} (he : (s.dialogs.set n d')[m]? = some e')
    (hlive : e'.live = true) : s.dialogMap.load e'.id = some m := by
  obtain ⟨e, he, hle⟩ := ClientDialog.exists_leads_of_set hd hl he
  rw [hle.id]
  exact h m e he (hle.live hlive)

/-- Of two live dialogs with one id the map holds only one. -/
theorem Findable.eq_of_id_eq {m n : Nat} {d e : ClientDialog} (h : Findable s)
    (hd : s.dialogs[n]? = some d) (he : s.dialogs[m]? = some e) (hdl : d.live = true)
    (hel : e.live = true) (hid : e.id = d.id) : m = n := by
  have hn := h n d hd hdl
  rw [← hid, h m e he hel] at hn
  exact Option.some.inj hn

/-- What is live after a `Delete` has been live before, in another place and under another id. -/
theorem Findable.of_delete {m n : Nat} {d e' : ClientDialog} (h : Findable s)
    (hd : s.dialogs[n]? = some d) (hpc : d.pc = .delete)
    (he : (s.dialogs.set n { d with pc := .stop })[m]? = some e') (hlive : e'.live = true) :
    s.dialogs[m]? = some e' ∧ e'.id ≠ d.id := by
  have hm : n ≠ m := by
    rintro rfl
    rw [List.getElem?_set_self (List.getElem?_eq_some_iff.mp hd).1] at he
    cases he
    cases hlive
  rw [List.getElem?_set_ne hm] at he
  refine ⟨he, fun hid => hm ?_⟩
  exact (h.eq_of_id_eq hd he (by simp [ClientDialog.live, hpc]) hlive hid).symm

/-- **A `Store` keeps every dialog findable exactly when it replaces no live one.** -/
theorem findable_store_iff {w : ConnCarrier} {d : ClientDialog} (h : Findable s)
    (hid : d.id = w.id) :
    (∀ n e, (s.dialogs ++ [d])[n]? = some e → e.live = true →
        (s.dialogMap.store w.id s.dialogs.length).load e.id = some n) ↔
      ∀ e ∈ s.dialogs, e.id = w.id → e.live = false := by
  constructor
  · intro h' e he heid
    obtain ⟨n, hn⟩ := List.mem_iff_getElem?.mp he
    have hlt : n < s.dialogs.length := (List.getElem?_eq_some_iff.mp hn).1
    by_contra hlive
    have hload := h' n e ((List.getElem?_append_left hlt).trans hn) (Bool.not_eq_false _ ▸ hlive)
    rw [SyncMap.load_store, if_pos heid] at hload
    exact absurd (Option.some.inj hload) (Nat.ne_of_gt hlt)
  · intro hfree n e hn hlive
    rw [SyncMap.load_store]
    rw [List.getElem?_append] at hn
    split at hn
    · -- a dialog from before has another id
      have hne : e.id ≠ w.id := fun heid => by
        rw [hfree e (List.mem_of_getElem? hn) heid] at hlive
        cases hlive
      rw [if_neg hne]
      exact h n e hn hlive
    · next hge =>
      obtain ⟨hlt, -⟩ := List.getElem?_eq_some_iff.mp hn
      obtain rfl : e = d := List.mem_singleton.mp (List.mem_of_getElem? hn)
      rw [if_pos hid]
      simp only [List.length_singleton] at hlt
      exact congrArg some (by omega)

/-- **One step: findable stays findable exactly under `fresh`.** -/
theorem findable_step_iff (h : Findable s) (hs : s.step a = some s') :
    Findable s' ↔ s.fresh a = true := by
  cases step_effect hs with
  | callStart net ids => exact iff_of_true h (fresh_of_storing_none rfl)
  | startReturns at_ =>
    exact iff_of_true h (fresh_of_storing_none (by simp only [storing, at_]))
  | store at_ =>
    rw [fresh_iff (storing_of_at at_)]
    exact findable_store_iff h rfl
  | goAndStop at_ hd =>
    refine iff_of_true (fun m e' he hlive => ?_)
      (fresh_of_storing_none (by simp only [storing, at_]))
    exact h.set hd (ClientDialog.leads_started _) he hlive
  | dialog hd hl =>
    exact iff_of_true (fun m e' he hlive => h.set hd hl he hlive) (fresh_of_storing_none rfl)
  | delete hd hpc =>
    refine iff_of_true (fun m e' he hlive => ?_) (fresh_of_storing_none rfl)
    obtain ⟨he, hne⟩ := h.of_delete hd hpc he hlive
    exact (SyncMap.load_delete ..).trans ((if_neg hne).trans (h m e' he hlive))
  | callStop | visit _ _ | next _ _ | close _ _ | closeAgain _ _ =>
    exact iff_of_true h (fresh_of_storing_none rfl)
  | stopDialog at_ done hd =>
    refine iff_of_true (fun m e' he hlive => ?_) (fresh_of_storing_none rfl)
    exact h.set hd (ClientDialog.leads_stopped _) he hlive

theorem findable_init (id : Int64) (dialer : Transport) (target : String) :
    Findable (init id dialer target) := by
  intro n d hd
  cases hd

/--
**Every dialog that runs is found under its id, in every state of a run, exactly when no `Store` of
the run replaces the entry of a dialog that runs.**
-/
theorem eachState_findable_iff (id : Int64) (dialer : Transport) (target : String)
    (acts : List ClientRunAct) :
    EachState step Findable (init id dialer target) acts ↔
      EachStep step (fun s a _ => s.fresh a = true) (init id dialer target) acts :=
  eachState_iff_of_step (I := fun _ _ => True) (fun _ _ _ _ _ _ => trivial)
    (fun _ _ _ _ _ h hs => findable_step_iff h hs) trivial (findable_init id dialer target)

end ClientRun

/-! ## What `Stop` reaches -/

namespace ClientStopPc

/-- How far `Stop` has dealt with a live dialog. -/
def Accounted (Stopped : Nat → Prop) (id : UInt64) (n : Nat) : ClientStopPc → Prop
  | .stopAll p => p.Accounted Stopped id n
  | .close | .returned | .panicked => Stopped n

variable {Stopped Stopped' : Nat → Prop} {id key : UInt64} {m n value : Nat}
  {pc pc' : ClientStopPc}

theorem Accounted.mono (h : pc.Accounted Stopped id n) (hS : ∀ n, Stopped n → Stopped' n) :
    pc.Accounted Stopped' id n := by
  cases pc with
  | stopAll p => exact StopAll.Accounted.mono (p := p) h hS
  | close | returned | panicked => exact hS n h

theorem Accounted.deleted (h : pc.Accounted Stopped id n) (hne : id ≠ key) :
    (pc.deleted key).Accounted Stopped id n := by
  cases pc with
  | stopAll p => exact StopAll.Accounted.deleted (p := p) h hne
  | close | returned | panicked => exact h

theorem Accounted.visit (h : pc.Accounted Stopped id n) (hv : pc.visit key value = some pc') :
    pc'.Accounted Stopped id n := by
  cases pc with
  | stopAll p =>
    obtain ⟨p', hp, ⟨⟩⟩ := Option.map_eq_some_iff.mp hv
    exact StopAll.Accounted.visit (p := p) h hp
  | close | returned | panicked => cases hv

theorem Accounted.done (h : pc.Accounted Stopped id n) (hd : pc.done m = some pc')
    (hm : Stopped m) : pc'.Accounted Stopped id n := by
  cases pc with
  | stopAll p =>
    obtain ⟨p', hp, ⟨⟩⟩ := Option.map_eq_some_iff.mp hd
    exact StopAll.Accounted.done (p := p) h hp hm
  | close | returned | panicked => cases hd

/-- `Stop` goes past the wait group, or stays before it. -/
theorem next_cases (h : pc.next = some pc') :
    (pc = .stopAll .waited ∧ pc' = .close) ∨
      ∃ p p', pc = .stopAll p ∧ p.next = some p' ∧ pc' = .stopAll p' := by
  unfold next at h
  split at h
  · cases h
    exact Or.inl ⟨rfl, rfl⟩
  · next p _ =>
    obtain ⟨p', hp, rfl⟩ := Option.map_eq_some_iff.mp h
    exact Or.inr ⟨p, p', rfl, hp, rfl⟩
  · cases h

theorem Accounted.next (h : pc.Accounted Stopped id n) (hn : pc.next = some pc') :
    pc'.Accounted Stopped id n := by
  obtain ⟨rfl, rfl⟩ | ⟨p, p', rfl, hp, rfl⟩ := next_cases hn
  · exact h
  · exact StopAll.Accounted.next (p := p) h hp

/-- The call has ended. -/
def ended : ClientStopPc → Bool
  | .returned | .panicked => true
  | _ => false

/-- No step of a call but the close of the channel leads to its end, and none leads on. -/
theorem ended_of_visit (h : pc.visit key value = some pc') :
    pc.ended = false ∧ pc'.ended = false := by
  cases pc with
  | stopAll p =>
    obtain ⟨p', -, ⟨⟩⟩ := Option.map_eq_some_iff.mp h
    exact ⟨rfl, rfl⟩
  | close | returned | panicked => cases h

theorem ended_of_done (h : pc.done m = some pc') : pc.ended = false ∧ pc'.ended = false := by
  cases pc with
  | stopAll p =>
    obtain ⟨p', -, ⟨⟩⟩ := Option.map_eq_some_iff.mp h
    exact ⟨rfl, rfl⟩
  | close | returned | panicked => cases h

theorem ended_of_next (h : pc.next = some pc') : pc.ended = false ∧ pc'.ended = false := by
  obtain ⟨rfl, rfl⟩ | ⟨p, p', rfl, -, rfl⟩ := next_cases h
  · exact ⟨rfl, rfl⟩
  · exact ⟨rfl, rfl⟩

end ClientStopPc

namespace ClientRun

open ClientDialog

variable {s s' : ClientRun} {a : ClientRunAct}

/--
Once a call of `Stop` has returned, every dialog is stopped, or its own goroutine has deleted it and
is about to stop it.
-/
def StopReaches (s : ClientRun) : Prop :=
  .returned ∈ s.stops → ∀ d ∈ s.dialogs, d.stopped = true ∨ d.pc = .stop

/-- Every dialog that has ended is stopped, and every call of `Stop` accounts for the live ones. -/
structure Reached (s : ClientRun) : Prop where
  ended : ∀ d ∈ s.dialogs, d.pc = .ended → d.stopped = true
  accounted : ∀ pc ∈ s.stops, ∀ n d, s.dialogs[n]? = some d → d.live = true →
    pc.Accounted (StoppedAt s.dialogs) d.id n

theorem Reached.stopReaches (h : Reached s) : StopReaches s := by
  intro hpc d hd
  obtain ⟨n, hn⟩ := List.mem_iff_getElem?.mp hd
  cases hdpc : d.pc with
  | start | delete =>
    have hlive : d.live = true := by simp [live, hdpc]
    obtain ⟨e, he, hstop⟩ := h.accounted .returned hpc n d hn hlive
    cases hn.symm.trans he
    exact Or.inl hstop
  | stop => exact Or.inr rfl
  | ended => exact Or.inl (h.ended d hd hdpc)

section Step

variable {n j : Nat} {d d' : ClientDialog} {pc pc' : ClientStopPc} {starts : List ClientStartPc}
  {stops : List ClientStopPc} {closed : Bool}

theorem ended_set (h : ∀ d ∈ s.dialogs, d.pc = .ended → d.stopped = true)
    (hd : s.dialogs[n]? = some d) (hl : d.Leads d') :
    ∀ e ∈ s.dialogs.set n d', e.pc = .ended → e.stopped = true := by
  intro e' he' hpc
  obtain ⟨m, hm⟩ := List.mem_iff_getElem?.mp he'
  obtain ⟨e, he, hle⟩ := exists_leads_of_set hd hl hm
  rcases hle.ended hpc with hstop | hended
  · exact hstop
  · exact hle.stopped (h e (List.mem_of_getElem? he) hended)

/-- A step of a dialog that the calls of `Stop` do not notice. -/
theorem Reached.set (h : Reached s) (hd : s.dialogs[n]? = some d) (hl : d.Leads d') :
    Reached { s with dialogs := s.dialogs.set n d', starts := starts } where
  ended := ended_set h.ended hd hl
  accounted := by
    intro pc hpc m e' he' hlive
    obtain ⟨e, he, hle⟩ := exists_leads_of_set hd hl he'
    rw [hle.id]
    exact (h.accounted pc hpc m e he (hle.live hlive)).mono fun _ hs => hs.set hd hl

/-- A step of a call of `Stop` that keeps what the call has dealt with. -/
theorem Reached.setStop (h : Reached s) (at_ : s.stops[j]? = some pc)
    (hpc : ∀ id n, pc.Accounted (StoppedAt s.dialogs) id n →
      pc'.Accounted (StoppedAt s.dialogs) id n) :
    Reached { s with stops := s.stops.set j pc', closed := closed } where
  ended := h.ended
  accounted := by
    intro p hp n d hd hlive
    rcases List.mem_or_eq_of_mem_set hp with hp | rfl
    · exact h.accounted p hp n d hd hlive
    · exact hpc d.id n (h.accounted pc (List.mem_of_getElem? at_) n d hd hlive)

theorem Reached.delete (h : Reached s) (hf : Findable s) (hd : s.dialogs[n]? = some d)
    (hpc : d.pc = .delete) : Reached { s with
      dialogMap := s.dialogMap.delete d.id
      dialogs := s.dialogs.set n { d with pc := .stop }
      stops := s.stops.map (·.deleted d.id) } where
  ended := ended_set h.ended hd leads_stop
  accounted := by
    intro pc hpc' m e hm hlive
    obtain ⟨p, hp, rfl⟩ := List.mem_map.mp hpc'
    obtain ⟨hm, hne⟩ := hf.of_delete hd hpc hm hlive
    have hacc := (h.accounted p hp m e hm hlive).deleted hne
    exact hacc.mono fun _ hs => hs.set hd leads_stop

/-- Every live dialog is in the map, so it is due when `Range` is called. -/
theorem Reached.callStop (h : Reached s) (hf : Findable s) :
    Reached { s with stops := s.stops ++ [.stopAll (StopAll.start s.dialogMap)] } where
  ended := h.ended
  accounted := by
    intro p hp n d hd hlive
    rcases List.mem_append.mp hp with hp | hp
    · exact h.accounted p hp n d hd hlive
    · obtain rfl := List.mem_singleton.mp hp
      exact StopAll.accounted_start (hf n d hd hlive)

end Step

/-- A `Store` comes before every call of `Stop`. -/
def early (s : ClientRun) (a : ClientRunAct) : Bool := (s.storing a).isNone || s.stops.isEmpty

/-- **One step: a client whose dialogs are findable goes on to reach them.** -/
theorem Reached.step (h : Reached s) (hf : Findable s) (hearly : s.early a = true)
    (hs : s.step a = some s') : Reached s' := by
  cases step_effect hs with
  | callStart net ids => exact ⟨h.ended, h.accounted⟩
  | startReturns at_ => exact ⟨h.ended, h.accounted⟩
  | store at_ =>
    have hstops : s.stops = [] := by
      simpa [early, storing_of_at at_] using hearly
    refine ⟨fun d hd hpc => ?_, fun pc hpc => ?_⟩
    · rcases List.mem_append.mp hd with hd | hd
      · exact h.ended d hd hpc
      · obtain rfl := List.mem_singleton.mp hd
        cases hpc
    · simp only [hstops, List.map_nil, List.not_mem_nil] at hpc
  | goAndStop at_ hd => exact h.set hd (leads_started _)
  | dialog hd hl => exact h.set hd hl
  | delete hd hpc => exact h.delete hf hd hpc
  | callStop => exact h.callStop hf
  | visit at_ hvisit => exact h.setStop at_ fun _ _ hacc => hacc.visit hvisit
  | stopDialog at_ hdone hd =>
    refine (h.set hd (leads_stopped _)).setStop at_ fun _ _ hacc => ?_
    exact hacc.done hdone (stoppedAt_set hd rfl)
  | next at_ hnext => exact h.setStop at_ fun _ _ hacc => hacc.next hnext
  | close at_ hopen => exact h.setStop at_ fun _ _ hacc => hacc
  | closeAgain at_ hclosed => exact h.setStop at_ fun _ _ hacc => hacc

/-! ## One `Start` -/

/-- `Start` is called once, and its last `Store` comes before every call of `Stop`. -/
def orderly (s : ClientRun) (a : ClientRunAct) : Bool :=
  s.early a && match a with
    | .callStart _ => s.starts.isEmpty
    | _ => true

/-- No `Start` has dialed, or one has, with ids that differ from each other. -/
def OneStart (s : ClientRun) : Prop :=
  (s.starts = [] ∧ s.dialogs = []) ∨
    ∃ pc, s.starts = [pc] ∧ (s.dialogs.map (·.id) ++ pc.wrappers.map (·.id)).Nodup

/-- The call that takes a step is the only one. -/
theorem OneStart.at {i : Nat} {pc : ClientStartPc} (h : OneStart s)
    (at_ : s.starts[i]? = some pc) :
    (∀ pc', s.starts.set i pc' = [pc']) ∧
      (s.dialogs.map (·.id) ++ pc.wrappers.map (·.id)).Nodup := by
  obtain ⟨hnil, -⟩ | ⟨pc₀, hone, hids⟩ := h
  · rw [hnil] at at_
    cases at_
  · rw [hone] at at_ ⊢
    obtain ⟨hi, heq⟩ := List.getElem?_eq_some_iff.mp at_
    obtain rfl : i = 0 := Nat.lt_one_iff.mp hi
    cases heq
    exact ⟨fun _ => rfl, hids⟩

theorem OneStart.set {n : Nat} {d d' : ClientDialog} (h : OneStart s)
    (hd : s.dialogs[n]? = some d) (hl : d.Leads d') :
    OneStart { s with dialogs := s.dialogs.set n d' } := by
  obtain ⟨-, hnil⟩ | ⟨pc, hone, hids⟩ := h
  · rw [hnil] at hd
    cases hd
  · exact Or.inr ⟨pc, hone, by rw [map_id_set hd hl]; exact hids⟩

/-- **A single `Start` stores under fresh ids**, since its carriers have different ones. -/
theorem OneStart.fresh (h : OneStart s) (a : ClientRunAct) : s.fresh a = true := by
  cases hst : s.storing a with
  | none => exact fresh_of_storing_none hst
  | some w =>
    refine (fresh_iff hst).mpr fun d hd hid => ?_
    obtain ⟨i, ws, rfl, at_⟩ := at_of_storing hst
    have hids := (h.at at_).2
    have hdisj := (List.nodup_append.mp hids).2.2
    exact absurd hid (hdisj _ (List.mem_map_of_mem hd) _ List.mem_cons_self)

theorem OneStart.step (h : OneStart s) (ho : s.orderly a = true) (hs : s.step a = some s') :
    OneStart s' := by
  cases step_effect hs with
  | callStart net ids =>
    have hnil : s.starts = [] := by simpa [orderly] using (Bool.and_eq_true_iff.mp ho).2
    obtain ⟨-, hds⟩ | ⟨pc, hone, -⟩ := h
    · exact Or.inr ⟨_, by rw [hnil]; rfl, by simpa [hds] using ids⟩
    · rw [hnil] at hone
      cases hone
  | startReturns at_ =>
    obtain ⟨hset, hids⟩ := h.at at_
    exact Or.inr ⟨_, hset _, hids⟩
  | store at_ =>
    obtain ⟨hset, hids⟩ := h.at at_
    refine Or.inr ⟨_, hset _, ?_⟩
    simpa [ClientStartPc.wrappers] using hids
  | goAndStop at_ hd =>
    obtain ⟨hset, hids⟩ := h.at at_
    exact Or.inr ⟨_, hset _, by rw [map_id_set hd (leads_started _)]; exact hids⟩
  | dialog hd hl => exact h.set hd hl
  | delete hd hpc => exact h.set hd leads_stop
  | stopDialog at_ hdone hd => exact h.set hd (leads_stopped _)
  | callStop | visit _ _ | next _ _ | close _ _ | closeAgain _ _ => exact h

/--
**When `Start` is called once and its last `Store` comes before every call of `Stop`, every dialog
that runs is found under its id, and once a call of `Stop` has returned, every dialog is stopped or
is about to stop itself.**
-/
theorem found_and_stopped (id : Int64) (dialer : Transport) (target : String)
    (acts : List ClientRunAct)
    (h : EachStep step (fun s a _ => s.orderly a = true) (init id dialer target) acts) :
    EachState step (fun s => s.Findable ∧ s.StopReaches) (init id dialer target) acts := by
  refine eachState_of_inv (I := fun s => s.OneStart ∧ s.Findable ∧ s.Reached) ?_ ?_ ?_ h
  · rintro s a s' ⟨hone, hfind, hreach⟩ ho hs
    have hearly := (Bool.and_eq_true_iff.mp ho).1
    exact ⟨hone.step ho hs, (findable_step_iff hfind hs).mpr (hone.fresh a),
      hreach.step hfind hearly hs⟩
  · exact fun s hi => ⟨hi.2.1, hi.2.2.stopReaches⟩
  · refine ⟨Or.inl ⟨rfl, rfl⟩, findable_init id dialer target, ?_, ?_⟩ <;> simp [init]

/--
A KCP client with four streams: all dialogs start, the third one ends by itself while `Stop` visits
the others, and `Stop` returns before it has stopped itself.
-/
def startThenStop : List ClientRunAct :=
  [[.callStart Net.healthy], List.replicate 9 (.start 0),
    [.callStop, .dialog 2, .visit 0 (dialogID 7 4) 3, .visit 0 (dialogID 7 1) 0, .dialog 2,
      .visit 0 (dialogID 7 2) 1, .stopDialog 0 0, .stop 0, .stopDialog 0 3, .stopDialog 0 1],
    List.replicate 3 (.stop 0)].flatten

theorem found_and_stopped_kcp :
    EachState step (fun s => s.Findable ∧ s.StopReaches)
        (init 7 (.kcp Kcp.Conf.default) "127.0.0.1:7001") startThenStop ∧
      (run step (init 7 (.kcp Kcp.Conf.default) "127.0.0.1:7001") startThenStop).map
          (fun s => (s.dialogs.map fun d => (d.pc, d.stopped), s.stops)) =
        some ([(.start, true), (.start, true), (.stop, false), (.start, true)], [.returned]) :=
  ⟨found_and_stopped _ _ _ _ (by decide +kernel), by decide +kernel⟩

/--
`Stop` comes between the `Store` and the end of the loop of a client with more than one stream: the
dialogs that the loop goes on to make run on.
-/
example :
    (run step (init 7 (.kcp Kcp.Conf.default) "127.0.0.1:7001")
        [.callStart Net.healthy, .start 0, .start 0, .callStop, .visit 0 (dialogID 7 1) 0,
          .stopDialog 0 0, .stop 0, .stop 0, .stop 0, .stop 0, .start 0, .start 0]).map
        (fun s => (s.dialogs.map fun d => (d.started, d.stopped), s.stops)) =
      some ([(true, true), (true, false)], [.returned]) := by
  decide +kernel

/-! ## A second call of `Stop` -/

/--
Of the calls of `Stop` that have ended exactly one has returned, and a call that comes to the close
of the channel after it panics.
-/
structure OneReturns (s : ClientRun) : Prop where
  /-- the others that have ended have panicked -/
  ended : s.stops.count .returned = min 1 (s.stops.countP ClientStopPc.ended)
  close : ∀ j, s.stops[j]? = some .close → ∃ s', s.step (.stop j) = some s' ∧
    s'.stops = s.stops.set j (if .returned ∈ s.stops then .panicked else .returned)

/-- The channel is closed by the call that has returned, and only if there is one. -/
structure ClosedOnce (s : ClientRun) : Prop where
  returned : s.stops.count .returned = s.closed.toNat
  panicked : .panicked ∈ s.stops → s.closed = true

theorem ClosedOnce.closed_iff (h : ClosedOnce s) : s.closed = true ↔ .returned ∈ s.stops := by
  rw [← List.count_pos_iff, h.returned]
  cases s.closed <;> simp

theorem ClosedOnce.oneReturns (h : ClosedOnce s) : OneReturns s := by
  constructor
  · rw [h.returned]
    cases hclosed : s.closed with
    | true =>
      have hpos : 0 < s.stops.countP ClientStopPc.ended :=
        List.countP_pos_iff.mpr ⟨.returned, h.closed_iff.mp hclosed, rfl⟩
      exact (Nat.min_eq_left hpos).symm
    | false =>
      have hzero : s.stops.countP ClientStopPc.ended = 0 := by
        refine List.countP_eq_zero.mpr fun pc hpc => ?_
        cases pc with
        | stopAll p | close => simp [ClientStopPc.ended]
        | returned => exact absurd (h.closed_iff.mpr hpc) (by simp [hclosed])
        | panicked => exact absurd (h.panicked hpc) (by simp [hclosed])
      rw [hzero]
      rfl
  · intro j hj
    simp only [step, hj, Option.bind_some, stopStep, ← h.closed_iff]
    split
    · exact ⟨_, rfl, rfl⟩
    · exact ⟨_, rfl, rfl⟩

/-- A step of one call that does not end it. -/
theorem ClosedOnce.set (h : ClosedOnce s) {j : Nat} {pc pc' : ClientStopPc}
    (at_ : s.stops[j]? = some pc) (hended : pc.ended = false ∧ pc'.ended = false)
    (hstops : s'.stops = s.stops.set j pc') (hclosed : s'.closed = s.closed) : ClosedOnce s' := by
  obtain ⟨hj, rfl⟩ := List.getElem?_eq_some_iff.mp at_
  have hne {q : ClientStopPc} (hq : q.ended = false) : q ≠ .returned ∧ q ≠ .panicked := by
    constructor <;> rintro rfl <;> cases hq
  constructor
  · rw [hstops, hclosed, List.count_set hj, ← h.returned]
    simp [(hne hended.1).1, (hne hended.2).1]
  · intro hmem
    rw [hstops] at hmem
    rw [hclosed]
    rcases List.mem_or_eq_of_mem_set hmem with hmem | heq
    · exact h.panicked hmem
    · exact absurd heq.symm (hne hended.2).2

/-- The calls hear of a change of the map. -/
theorem ClosedOnce.map (h : ClosedOnce s) {f : ClientStopPc → ClientStopPc}
    (hf : ∀ pc pc', pc'.ended = true → (f pc = pc' ↔ pc = pc'))
    (hstops : s'.stops = s.stops.map f) (hclosed : s'.closed = s.closed) : ClosedOnce s' := by
  constructor
  · rw [hstops, hclosed, ← h.returned, List.count, List.countP_map]
    exact List.countP_congr fun pc _ => by simp [hf pc .returned rfl]
  · intro hmem
    rw [hstops] at hmem
    obtain ⟨pc, hpc, heq⟩ := List.mem_map.mp hmem
    rw [hclosed]
    exact h.panicked ((hf pc .panicked rfl).mp heq ▸ hpc)

theorem ClosedOnce.step (h : ClosedOnce s) (hs : s.step a = some s') : ClosedOnce s' := by
  cases step_effect hs with
  | callStart | startReturns | goAndStop | dialog => exact ⟨h.returned, h.panicked⟩
  | store at_ =>
    refine h.map (fun pc pc' hpc' => ?_) rfl rfl
    cases pc <;> cases pc' <;> simp [ClientStopPc.stored, ClientStopPc.ended] at hpc' ⊢
  | delete hd hpc =>
    refine h.map (fun pc pc' hpc' => ?_) rfl rfl
    cases pc <;> cases pc' <;> simp [ClientStopPc.deleted, ClientStopPc.ended] at hpc' ⊢
  | callStop => exact ⟨by simpa using h.returned, by simpa using h.panicked⟩
  | visit at_ hvisit => exact h.set at_ (ClientStopPc.ended_of_visit hvisit) rfl rfl
  | stopDialog at_ hdone hd => exact h.set at_ (ClientStopPc.ended_of_done hdone) rfl rfl
  | next at_ hnext => exact h.set at_ (ClientStopPc.ended_of_next hnext) rfl rfl
  | @close j at_ hopen =>
    obtain ⟨hj, hpc⟩ := List.getElem?_eq_some_iff.mp at_
    refine ⟨?_, fun _ => rfl⟩
    have hnone : s.stops.count .returned = 0 := by rw [h.returned, hopen]; rfl
    show (s.stops.set j .returned).count .returned = 1
    rw [List.count_set hj, hnone, hpc]
    rfl
  | @closeAgain j at_ hclosed =>
    obtain ⟨hj, hpc⟩ := List.getElem?_eq_some_iff.mp at_
    refine ⟨?_, fun _ => hclosed⟩
    show (s.stops.set j .panicked).count .returned = s.closed.toNat
    rw [List.count_set hj, h.returned, hpc]
    rfl

/--
**However often `Stop` is called and however the calls interleave, of those that have ended exactly
one has returned.** The others have panicked at the close of the channel, and so does every call
that comes there later.
-/
theorem one_stop_returns (id : Int64) (dialer : Transport) (target : String)
    (acts : List ClientRunAct) : EachState step OneReturns (init id dialer target) acts :=
  eachState_of_remaining (I := fun s _ => s.ClosedOnce) (fun _ _ _ _ hi hs => hi.step hs)
    (fun _ _ hi => hi.oneReturns) ⟨rfl, nofun⟩

/-- Two calls of `Stop` on a client that was not started. -/
example :
    (run step (init 7 .tcp "127.0.0.1:7001")
        [.callStop, .callStop, .stop 0, .stop 1, .stop 1, .stop 0, .stop 0, .stop 1, .stop 1,
          .stop 0]).map (fun s => s.stops) = some [.panicked, .returned] := by
  decide +kernel

end ClientRun

end FabricaNet.Internal
