import Mathlib.Data.List.Infix
import FabricaNet.Go.Time
import FabricaNet.Go.Io

/-!
# Push errors of a tunnel

`Tunnel.scLoop` and `Tunnel.recordPushErr` of `internal/tunnel.go`. The window of ten seconds
starts at a failed push and is moved only by a later one; a push that succeeds sets the count back
and leaves the window where it is. `Window` says what the two fields mean in terms of the turns the
loop has made, and gives the first half of the main result. The second half counts how many failures
a window and its successor can hold.
-/

namespace FabricaNet.Internal

open Go

def recordPushErrStartAt : Duration := 10 * second

def recordPushErrCount : Nat := 10

/-- The fields of a tunnel that `recordPushErr` uses. The count is an `int` and never above 11. -/
structure PushErrs where
  recordPushErrStartAt : Time
  recordPushErrCount : Nat
deriving DecidableEq, Repr

/-- The fields in `newTunnel`: the zero time and the zero count. -/
def PushErrs.init : PushErrs := ⟨Time.zero, 0⟩

/-- `recordPushErr` when the clock reads `now`. -/
def recordPushErr (t : PushErrs) (now : Time) : Bool × PushErrs :=
  let t :=
    if now.sub t.recordPushErrStartAt > recordPushErrStartAt then ⟨now, 0⟩ else t
  let t := { t with recordPushErrCount := t.recordPushErrCount + 1 }
  (decide (t.recordPushErrCount > recordPushErrCount), t)

/-- What happens in one turn of `scLoop`. A clock never reads a time before the zero time. -/
inductive Turn
  /-- the context has ended -/
  | done (err : Err)
  /-- `SCHandle` returns an error -/
  | handleErr (err : Err)
  /-- `TunnelMsgToPack` returns an error -/
  | packErr (err : Err)
  | pushed (now : Nat)
  | failed (now : Nat) (err : Err)

/-- Why `scLoop` has returned. -/
inductive Exit
  | err (err : Err)
  /-- `recordPushErr` has returned true -/
  | overload (err : Err)

/-- One turn of `scLoop`. -/
def turn (t : PushErrs) : Turn → Except Exit PushErrs
  | .done err => .error (.err err)
  | .handleErr err => .error (.err err)
  | .packErr err => .error (.err err)
  | .pushed _ => .ok { t with recordPushErrCount := 0 }
  | .failed now err =>
    if (recordPushErr t ⟨now⟩).1 then .error (.overload err) else .ok (recordPushErr t ⟨now⟩).2

/-- `scLoop`, as far as the turns go. -/
def scLoop (t : PushErrs) : List Turn → Except Exit PushErrs
  | [] => .ok t
  | u :: us =>
    match turn t u with
    | .error exit => .error exit
    | .ok t' => scLoop t' us

/-- The times of the push attempts. -/
def Turn.now? : Turn → Option Nat
  | .pushed now => some now
  | .failed now _ => some now
  | _ => none

/-- The turns are failed pushes that lie within ten seconds. -/
def FailuresWithin (us : List Turn) : Prop :=
  ∃ start : Int, ∀ u ∈ us, ∃ (now : Nat) (err : Err),
    u = .failed now err ∧ start ≤ now ∧ now ≤ start + recordPushErrStartAt.toInt

/-! ## One turn -/

/-- A failure outside of the window starts a new one. -/
theorem turn_failed_of_lt {t : PushErrs} {now : Nat} (err : Err)
    (h : t.recordPushErrStartAt.ns + recordPushErrStartAt.toInt < now) :
    turn t (.failed now err) = .ok ⟨⟨now⟩, 1⟩ := by
  have hsub : Time.sub ⟨now⟩ t.recordPushErrStartAt > recordPushErrStartAt :=
    (Time.lt_sub_iff (by decide)).mpr (Int.lt_sub_left_of_add_lt h)
  simp [turn, recordPushErr, hsub, recordPushErrCount]

/-- A failure in the window counts, and the eleventh is the last. -/
theorem turn_failed_of_le {t : PushErrs} {now : Nat} (err : Err)
    (h : now ≤ t.recordPushErrStartAt.ns + recordPushErrStartAt.toInt) :
    turn t (.failed now err) =
      if 10 ≤ t.recordPushErrCount then .error (.overload err)
      else .ok { t with recordPushErrCount := t.recordPushErrCount + 1 } := by
  have hsub : ¬Time.sub ⟨now⟩ t.recordPushErrStartAt > recordPushErrStartAt := by
    rw [gt_iff_lt, Time.lt_sub_iff (by decide), Int.not_lt]
    exact Int.sub_left_le_of_le_add h
  simp only [turn, recordPushErr, if_neg hsub, recordPushErrCount, decide_eq_true_eq]
  congr 1
  simp only [gt_iff_lt, Nat.lt_add_one_iff]

theorem scLoop_append (t : PushErrs) (us vs : List Turn) :
    scLoop t (us ++ vs) = (scLoop t us).bind fun t' => scLoop t' vs := by
  induction us generalizing t with
  | nil => rfl
  | cons u us ih =>
    rw [List.cons_append, scLoop, scLoop]
    cases turn t u with
    | error exit => rfl
    | ok t' => exact ih t'

/-! ## What the fields mean -/

/--
The failures that are counted are the last turns, and lie in the window. The window does not start
after the turns.
-/
structure Window (us : List Turn) (t : PushErrs) : Prop where
  counted : ∃ old recent, us = old ++ recent ∧ recent.length = t.recordPushErrCount ∧
    ∀ u ∈ recent, ∃ (now : Nat) (err : Err), u = .failed now err ∧ t.recordPushErrStartAt.ns ≤ now ∧
      now ≤ t.recordPushErrStartAt.ns + recordPushErrStartAt.toInt
  startAt : ∀ next : Nat, (∀ u ∈ us, ∀ now ∈ u.now?, now ≤ next) → t.recordPushErrStartAt.ns ≤ next
  count_le : t.recordPushErrCount ≤ 10

theorem window_init : Window [] PushErrs.init :=
  ⟨⟨[], [], rfl, rfl, by simp⟩, fun next _ => Int.natCast_nonneg next, Nat.zero_le _⟩

/-- A failure in the window makes the run of counted failures one longer. -/
theorem Window.counted_failed {us : List Turn} {t : PushErrs} (h : Window us t) {now : Nat}
    (err : Err) (hmono : ∀ u ∈ us, ∀ time ∈ u.now?, time ≤ now)
    (hin : now ≤ t.recordPushErrStartAt.ns + recordPushErrStartAt.toInt) :
    ∃ old recent, us ++ [.failed now err] = old ++ recent ∧
      recent.length = t.recordPushErrCount + 1 ∧
      ∀ u ∈ recent, ∃ (now : Nat) (err : Err), u = .failed now err ∧
        t.recordPushErrStartAt.ns ≤ now ∧
        now ≤ t.recordPushErrStartAt.ns + recordPushErrStartAt.toInt := by
  obtain ⟨old, recent, hus, hlen, hrecent⟩ := h.counted
  refine ⟨old, recent ++ [.failed now err], by rw [hus, List.append_assoc], by simp [hlen], ?_⟩
  intro u hu
  rcases List.mem_append.mp hu with hold | hnew
  · exact hrecent u hold
  · exact ⟨now, err, List.mem_singleton.mp hnew, h.startAt now hmono, hin⟩

/-- A turn after which the loop goes on keeps the meaning of the fields. -/
theorem Window.turn {us : List Turn} {t t' : PushErrs} (h : Window us t) {u : Turn}
    (hmono : ∀ now ∈ u.now?, ∀ v ∈ us, ∀ time ∈ v.now?, time ≤ now)
    (hu : Internal.turn t u = .ok t') : Window (us ++ [u]) t' := by
  have hlater : ∀ {next : Nat}, (∀ v ∈ us ++ [u], ∀ now ∈ v.now?, now ≤ next) →
      t.recordPushErrStartAt.ns ≤ next := fun hnext =>
    h.startAt _ fun v hv => hnext v (List.mem_append_left _ hv)
  cases u with
  | done err => cases hu
  | handleErr err => cases hu
  | packErr err => cases hu
  | pushed now =>
    cases hu
    exact ⟨⟨us ++ [.pushed now], [], by simp, rfl, by simp⟩, fun _ => hlater, Nat.zero_le _⟩
  | failed now err =>
    by_cases hin : now ≤ t.recordPushErrStartAt.ns + recordPushErrStartAt.toInt
    · rw [turn_failed_of_le err hin] at hu
      split at hu
      · cases hu
      · cases hu
        refine ⟨h.counted_failed err (hmono now rfl) hin, fun _ => hlater, ?_⟩
        change t.recordPushErrCount + 1 ≤ 10
        omega
    · -- the window is moved to this failure, which is the only one in it
      rw [turn_failed_of_lt err (Int.not_le.mp hin)] at hu
      cases hu
      refine ⟨⟨us, [.failed now err], rfl, rfl, ?_⟩, ?_, Nat.succ_le_succ (Nat.zero_le 9)⟩
      · intro v hv
        have hspan : 0 ≤ recordPushErrStartAt.toInt := by decide
        exact ⟨now, err, List.mem_singleton.mp hv, Int.le_refl _, Int.le_add_of_nonneg_right hspan⟩
      · intro next hnext
        have hmem : Turn.failed now err ∈ us ++ [.failed now err] := by simp
        exact Int.ofNat_le.mpr (hnext _ hmem now rfl)

/-- The times of a list of turns are in order when those of each turn and the ones before are. -/
theorem pairwise_now_concat {us : List Turn} {u : Turn}
    (h : ((us ++ [u]).filterMap Turn.now?).Pairwise (· ≤ ·)) :
    (us.filterMap Turn.now?).Pairwise (· ≤ ·) ∧
      ∀ now ∈ u.now?, ∀ v ∈ us, ∀ time ∈ v.now?, time ≤ now := by
  rw [List.filterMap_append, List.pairwise_append] at h
  refine ⟨h.1, fun now hnow v hv time htime => h.2.2 time ?_ now ?_⟩
  · exact List.mem_filterMap.mpr ⟨v, hv, htime⟩
  · exact List.mem_filterMap.mpr ⟨u, List.mem_singleton_self u, hnow⟩

theorem window_of_scLoop {us : List Turn} {t : PushErrs}
    (hmono : (us.filterMap Turn.now?).Pairwise (· ≤ ·)) (h : scLoop PushErrs.init us = .ok t) :
    Window us t := by
  induction us using List.reverseRecOn generalizing t with
  | nil =>
    cases h
    exact window_init
  | append_singleton us u ih =>
    obtain ⟨hmono', hlast⟩ := pairwise_now_concat hmono
    rw [scLoop_append] at h
    cases hus : scLoop PushErrs.init us with
    | error exit =>
      rw [hus] at h
      cases h
    | ok s =>
      rw [hus, Except.bind, scLoop] at h
      split at h
      · cases h
      next t' hu =>
        cases h
        exact (ih hmono' hus).turn hlast hu

/-! ## How many failures can be survived -/

/-- In one window the count can only grow. -/
theorem scLoop_of_in_window {t : PushErrs} {us : List Turn}
    (hus : ∀ u ∈ us, ∃ (now : Nat) (err : Err), u = .failed now err ∧
      now ≤ t.recordPushErrStartAt.ns + recordPushErrStartAt.toInt)
    (hcount : t.recordPushErrCount ≤ 10) (hlen : 10 < t.recordPushErrCount + us.length) :
    ∃ err, scLoop t us = .error (.overload err) := by
  induction us generalizing t with
  | nil =>
    rw [List.length_nil] at hlen
    omega
  | cons u us ih =>
    obtain ⟨now, err, rfl, hin⟩ := hus u List.mem_cons_self
    rw [scLoop, turn_failed_of_le err hin]
    split
    next exit hu =>
      split at hu <;> cases hu
      exact ⟨err, rfl⟩
    next t' hu =>
      split at hu
      · cases hu
      · cases hu
        rw [List.length_cons] at hlen
        refine ih (fun v hv => hus v (List.mem_cons_of_mem _ hv)) ?_ ?_
        · change t.recordPushErrCount + 1 ≤ 10
          omega
        · change 10 < t.recordPushErrCount + 1 + us.length
          omega

/--
Failures within ten seconds move the window at most once: up to ten are counted in the old one and
ten in the new one.
-/
theorem scLoop_of_failuresWithin {t : PushErrs} {us : List Turn} (hus : FailuresWithin us)
    (hcount : t.recordPushErrCount ≤ 10) (hlen : 20 < t.recordPushErrCount + us.length) :
    ∃ err, scLoop t us = .error (.overload err) := by
  obtain ⟨start, hus⟩ := hus
  induction us generalizing t with
  | nil =>
    rw [List.length_nil] at hlen
    omega
  | cons u us ih =>
    obtain ⟨now, err, rfl, hfrom, hto⟩ := hus u List.mem_cons_self
    rw [List.length_cons] at hlen
    have hrest := fun v hv => hus v (List.mem_cons_of_mem (Turn.failed now err) hv)
    by_cases hin : now ≤ t.recordPushErrStartAt.ns + recordPushErrStartAt.toInt
    · rw [scLoop, turn_failed_of_le err hin]
      split
      next exit hu =>
        split at hu <;> cases hu
        exact ⟨err, rfl⟩
      next t' hu =>
        split at hu
        · cases hu
        · cases hu
          refine ih ?_ ?_ hrest
          · change t.recordPushErrCount + 1 ≤ 10
            omega
          · change 20 < t.recordPushErrCount + 1 + us.length
            omega
    · -- from here on nothing is outside of the window that starts now
      rw [scLoop, turn_failed_of_lt err (Int.not_le.mp hin)]
      refine scLoop_of_in_window (t := ⟨⟨now⟩, 1⟩) (fun v hv => ?_)
        (Nat.succ_le_succ (Nat.zero_le 9)) ?_
      · obtain ⟨time, err', rfl, _, hle⟩ := hrest v hv
        refine ⟨time, err', rfl, ?_⟩
        change (time : Int) ≤ now + recordPushErrStartAt.toInt
        omega
      · change 10 < 1 + us.length
        omega

/-- A failure, whose window is used ten seconds later, and a success. -/
def beforeTwenty : List Turn := [.failed 100000000000 errEOF, .pushed 100000000000]

/-- Ten failures at the end of the window and ten in the next one. -/
def twentyFailures : List Turn :=
  List.replicate 10 (.failed 109000000000 errEOF) ++
    List.replicate 10 (.failed 111000000000 errEOF)

theorem failuresWithin_twentyFailures : FailuresWithin twentyFailures := by
  refine ⟨109000000000, fun u hu => ?_⟩
  rcases List.mem_append.mp hu with h | h
  · exact ⟨_, _, List.eq_of_mem_replicate h, by decide, by decide⟩
  · exact ⟨_, _, List.eq_of_mem_replicate h, by decide, by decide⟩

/--
**Giving up is justified and not delayed.** For turns whose push attempts have non-decreasing
times: where `recordPushErr` returns true, the last eleven or more turns are failed pushes within
ten seconds; a loop that meets 21 failed pushes in a row within ten seconds gives up; 20 of them can
be survived.
-/
theorem push_overload_sound_and_bounded :
    (∀ (us : List Turn) (u : Turn) (t : PushErrs) (err : Err),
      ((us ++ [u]).filterMap Turn.now?).Pairwise (· ≤ ·) →
      scLoop PushErrs.init us = .ok t → turn t u = .error (.overload err) →
      ∃ old recent, us ++ [u] = old ++ recent ∧ 11 ≤ recent.length ∧ FailuresWithin recent) ∧
    (∀ (us recent : List Turn) (t : PushErrs),
      ((us ++ recent).filterMap Turn.now?).Pairwise (· ≤ ·) →
      scLoop PushErrs.init us = .ok t → recent.length = 21 → FailuresWithin recent →
      ∃ err, scLoop PushErrs.init (us ++ recent) = .error (.overload err)) ∧
    (∃ (us recent : List Turn) (t : PushErrs),
      ((us ++ recent).filterMap Turn.now?).Pairwise (· ≤ ·) ∧ recent.length = 20 ∧
      FailuresWithin recent ∧ scLoop PushErrs.init (us ++ recent) = .ok t) := by
  refine ⟨?_, ?_, ?_⟩
  · intro us u t err hmono hus hu
    obtain ⟨hmono', hlast⟩ := pairwise_now_concat hmono
    have hw := window_of_scLoop hmono' hus
    cases u with
    | done err => cases hu
    | handleErr err => cases hu
    | packErr err => cases hu
    | pushed now => cases hu
    | failed now err' =>
      by_cases hin : now ≤ t.recordPushErrStartAt.ns + recordPushErrStartAt.toInt
      · obtain ⟨old, recent, heq, hlen, hrecent⟩ := hw.counted_failed err' (hlast now rfl) hin
        rw [turn_failed_of_le err' hin] at hu
        split at hu
        · exact ⟨old, recent, heq, by omega, t.recordPushErrStartAt.ns, hrecent⟩
        · cases hu
      · rw [turn_failed_of_lt err' (Int.not_le.mp hin)] at hu
        cases hu
  · intro us recent t hmono hus hlen hrecent
    rw [List.filterMap_append, List.pairwise_append] at hmono
    have hw := window_of_scLoop hmono.1 hus
    rw [scLoop_append, hus]
    exact scLoop_of_failuresWithin hrecent hw.count_le (by omega)
  · exact ⟨beforeTwenty, twentyFailures, ⟨⟨111000000000⟩, 10⟩, by decide, rfl,
      failuresWithin_twentyFailures, rfl⟩

/-- Eleven failures in a row are given up, and so are the twenty with one more. -/
theorem push_overload_sound_and_bounded_inputs :
    (∃ old recent,
      List.replicate 10 (.failed 100000000000 errEOF) ++ [.failed 100000000000 errEOF] =
        old ++ recent ∧ 11 ≤ recent.length ∧ FailuresWithin recent) ∧
    ∃ err, scLoop PushErrs.init
      (beforeTwenty ++ (twentyFailures ++ [.failed 111000000000 errEOF])) =
        .error (.overload err) := by
  refine ⟨?_, ?_⟩
  · exact push_overload_sound_and_bounded.1 _ _ ⟨⟨100000000000⟩, 10⟩ errEOF (by decide) rfl rfl
  · refine push_overload_sound_and_bounded.2.1 beforeTwenty _ ⟨⟨100000000000⟩, 0⟩ (by decide) rfl
      rfl ⟨109000000000, fun u hu => ?_⟩
    have hu' : u = .failed 109000000000 errEOF ∨ u = .failed 111000000000 errEOF := by
      simpa [twentyFailures, List.mem_replicate] using hu
    rcases hu' with rfl | rfl
    · exact ⟨_, _, rfl, by decide, by decide⟩
    · exact ⟨_, _, rfl, by decide, by decide⟩

end FabricaNet.Internal
