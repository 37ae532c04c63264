import Mathlib.Algebra.Order.Ring.Int
import Mathlib.Data.List.DropRight
import FabricaNet.Kcp.Config

/-!
# The adaptive tuner

`AdaptiveConfigTuner` of `kcp/util/config.go`. A tuning starts from the base configuration and
passes three stages: round trip times, packet loss, throughput. What a stage may change is stated by
`Near`; a whole tuning is near the base because each stage is.
-/

namespace FabricaNet.Kcp

open Go

/-- What the tuner asks about `packetLoss`: above 0.05, below 0.01, or neither. -/
inductive Loss
  | high
  | between
  | low
deriving DecidableEq, Repr

/-- `AdaptiveConfigTuner`. -/
structure AdaptiveConfigTuner where
  baseConfig : Conf
  currentConfig : Conf
  lastTuned : Time
  rttSamples : List Duration
  packetLoss : Loss
  throughput : UInt64
  maxRTTSamples : Nat
  tuningInterval : Duration
deriving DecidableEq, Repr

/-- `NewAdaptiveConfigTuner`; the zero packet loss is below 0.01. -/
def newAdaptiveConfigTuner (baseConfig : Conf) (now : Time) : AdaptiveConfigTuner where
  baseConfig := baseConfig
  currentConfig := baseConfig
  lastTuned := now
  rttSamples := []
  packetLoss := .low
  throughput := 0
  maxRTTSamples := 100
  tuningInterval := 30 * second

def minInt (a b : Int64) : Int64 := if a < b then a else b

def maxInt (a b : Int64) : Int64 := if a > b then a else b

namespace AdaptiveConfigTuner

/-- `AddRTTSample`. -/
def addRTTSample (t : AdaptiveConfigTuner) (rtt : Duration) : AdaptiveConfigTuner :=
  let samples := t.rttSamples ++ [rtt]
  { t with rttSamples := if t.maxRTTSamples < samples.length then samples.drop 1 else samples }

/-- `UpdatePacketLoss`. -/
def updatePacketLoss (t : AdaptiveConfigTuner) (loss : Loss) : AdaptiveConfigTuner :=
  { t with packetLoss := loss }

/-- `UpdateThroughput`. -/
def updateThroughput (t : AdaptiveConfigTuner) (throughput : UInt64) : AdaptiveConfigTuner :=
  { t with throughput }

/-- The average round trip time; the sum of the durations may wrap around. -/
def avgRTT (samples : List Duration) : Duration :=
  samples.foldl (· + ·) 0 / Int64.ofNat samples.length

/-- The stage of `TuneConfig` that looks at the round trip times. -/
def tuneRTT (samples : List Duration) (conf : Conf) : Conf :=
  if samples.length > 0 then
    if avgRTT samples > 100 * millisecond then
      { conf with noDelay := (0, 20, 2, 0), windowSize := (512, 512) }
    else if avgRTT samples < 20 * millisecond then
      { conf with noDelay := (1, 5, 2, 1), windowSize := (128, 128) }
    else conf
  else conf

/-- The stage of `TuneConfig` that looks at the packet loss. -/
def tuneLoss (loss : Loss) (conf : Conf) : Conf :=
  match loss with
  | .high =>
    if conf.dataShards > 0 ∧ conf.parityShards < 5 then
      { conf with parityShards := minInt (conf.parityShards + 1) 5 }
    else conf
  | .low =>
    if conf.parityShards > 1 then
      { conf with parityShards := maxInt (conf.parityShards - 1) 1 }
    else conf
  | .between => conf

/-- The stage of `TuneConfig` that looks at the throughput. -/
def tuneThroughput (throughput : UInt64) (conf : Conf) : Conf :=
  if throughput > 10 * 1024 * 1024 then
    { conf with mtu := 1400, windowSize := (512, 512) }
  else conf

/-- The `newConfig` of `TuneConfig`. -/
def newConfig (t : AdaptiveConfigTuner) : Conf :=
  tuneThroughput t.throughput (tuneLoss t.packetLoss (tuneRTT t.rttSamples t.baseConfig))

/-- `TuneConfig` at the time `now`. -/
def tuneConfig (t : AdaptiveConfigTuner) (now : Time) : Conf × AdaptiveConfigTuner :=
  if now.sub t.lastTuned < t.tuningInterval then (t.currentConfig, t)
  else (t.newConfig, { t with lastTuned := now, currentConfig := t.newConfig })

/-- `GetCurrentConfig`. -/
def getCurrentConfig (t : AdaptiveConfigTuner) : Conf := t.currentConfig

/-- `Reset` at the time `now`. -/
def reset (t : AdaptiveConfigTuner) (now : Time) : AdaptiveConfigTuner :=
  { t with
    currentConfig := t.baseConfig
    rttSamples := []
    packetLoss := .low
    throughput := 0
    lastTuned := now }

/-! ## Sequences of calls -/

/-- A call of a method of the tuner. -/
inductive Call
  | addRTTSample (rtt : Duration)
  | updatePacketLoss (loss : Loss)
  | updateThroughput (throughput : UInt64)
  | tuneConfig (now : Time)
  | getCurrentConfig
  | reset (now : Time)

/-- The configuration a call returns, if it returns one, and the tuner after it. -/
def exec (t : AdaptiveConfigTuner) : Call → Option Conf × AdaptiveConfigTuner
  | .addRTTSample rtt => (none, t.addRTTSample rtt)
  | .updatePacketLoss loss => (none, t.updatePacketLoss loss)
  | .updateThroughput throughput => (none, t.updateThroughput throughput)
  | .tuneConfig now => (some (t.tuneConfig now).1, (t.tuneConfig now).2)
  | .getCurrentConfig => (some t.getCurrentConfig, t)
  | .reset now => (none, t.reset now)

/-- The tuner after a sequence of calls. -/
def after (t : AdaptiveConfigTuner) (calls : List Call) : AdaptiveConfigTuner :=
  calls.foldl (fun t call => (t.exec call).2) t

/-- The configurations a sequence of calls returns. -/
def returned (t : AdaptiveConfigTuner) : List Call → List Conf
  | [] => []
  | call :: calls => (t.exec call).1.toList ++ returned (t.exec call).2 calls

@[simp] theorem after_cons (t : AdaptiveConfigTuner) (call : Call) (calls : List Call) :
    t.after (call :: calls) = (t.exec call).2.after calls := rfl

theorem mem_returned_cons {t : AdaptiveConfigTuner} {call : Call} {calls : List Call}
    {conf : Conf} :
    conf ∈ t.returned (call :: calls) ↔
      (t.exec call).1 = some conf ∨ conf ∈ (t.exec call).2.returned calls := by
  rw [returned, List.mem_append, Option.mem_toList]

/-- The round trip times added since the last `Reset`, on top of `samples`. -/
def added (samples : List Duration) : List Call → List Duration
  | [] => samples
  | .addRTTSample rtt :: calls => added (samples ++ [rtt]) calls
  | .reset _ :: calls => added [] calls
  | _ :: calls => added samples calls

/-! ## What a tuning can change -/

/-- A valid configuration that differs from the base only where a tuning may change it. -/
structure Near (base conf : Conf) : Prop where
  valid : Valid conf
  eq_base : conf = { base with
    noDelay := conf.noDelay
    windowSize := conf.windowSize
    parityShards := conf.parityShards
    mtu := conf.mtu }

theorem near_self {base : Conf} (h : Valid base) : Near base base := ⟨h, rfl⟩

/-- Another delay and other windows are fine as long as the windows are positive. -/
theorem Near.withWindow {base conf : Conf} (h : Near base conf)
    (noDelay : Int64 × Int64 × Int64 × Int64) (windowSize : Int64 × Int64)
    (hw : 0 < windowSize.1 ∧ 0 < windowSize.2) : Near base { conf with noDelay, windowSize } := by
  refine ⟨{ h.valid with windowSize := hw }, ?_⟩
  conv_lhs => rw [h.eq_base]

/-- Another number of parity shards is fine as long as the validator takes it. -/
theorem Near.withParity {base conf : Conf} (h : Near base conf) {n : Int64}
    (hn : 0 ≤ n ∧ n ≤ 255) : Near base { conf with parityShards := n } := by
  refine ⟨{ h.valid with parityShards := hn }, ?_⟩
  conv_lhs => rw [h.eq_base]

theorem Near.withMtu {base conf : Conf} (h : Near base conf) (mtu : Int64)
    (hm : 576 ≤ mtu ∧ mtu ≤ 1500) : Near base { conf with mtu } := by
  refine ⟨{ h.valid with mtu := hm }, ?_⟩
  conv_lhs => rw [h.eq_base]

theorem Near.tuneRTT {base conf : Conf} (h : Near base conf) (samples : List Duration) :
    Near base (tuneRTT samples conf) := by
  unfold AdaptiveConfigTuner.tuneRTT
  split
  · split
    · exact h.withWindow _ _ (by decide)
    · split
      · exact h.withWindow _ _ (by decide)
      · exact h
  · exact h

theorem Near.tuneThroughput {base conf : Conf} (h : Near base conf) (throughput : UInt64) :
    Near base (tuneThroughput throughput conf) := by
  unfold AdaptiveConfigTuner.tuneThroughput
  split
  · exact (h.withWindow conf.noDelay (512, 512) (by decide)).withMtu 1400 (by decide)
  · exact h

/-- Below 5 the limit of `minInt` is not reached. -/
theorem minInt_succ {n : Int64} (h : n < 5) (h₀ : 0 ≤ n) : minInt (n + 1) 5 = n + 1 := by
  unfold minInt
  split
  · rfl
  · grind

/-- Above 1 the limit of `maxInt` is not reached. -/
theorem maxInt_pred {n : Int64} (h : 1 < n) : maxInt (n - 1) 1 = n - 1 := by
  unfold maxInt
  split
  · rfl
  · grind

theorem Near.tuneLoss {base conf : Conf} (h : Near base conf) (loss : Loss) :
    Near base (tuneLoss loss conf) := by
  have hp := h.valid.parityShards
  cases loss with
  | high =>
    dsimp only [AdaptiveConfigTuner.tuneLoss]
    split
    next hc =>
      rw [minInt_succ hc.2 hp.1]
      exact h.withParity (by grind)
    next => exact h
  | between => exact h
  | low =>
    dsimp only [AdaptiveConfigTuner.tuneLoss]
    split
    next hc =>
      rw [maxInt_pred hc]
      exact h.withParity (by grind)
    next => exact h

/-- The other stages leave the number of parity shards alone. -/
theorem parityShards_tuneRTT (samples : List Duration) (conf : Conf) :
    (tuneRTT samples conf).parityShards = conf.parityShards := by
  unfold tuneRTT
  split
  · split
    · rfl
    · split <;> rfl
  · rfl

theorem parityShards_tuneThroughput (throughput : UInt64) (conf : Conf) :
    (tuneThroughput throughput conf).parityShards = conf.parityShards := by
  unfold tuneThroughput
  split <;> rfl

/-- The packet loss moves the number of parity shards by one at most. -/
theorem parityShards_tuneLoss {conf : Conf} (h : Valid conf) (loss : Loss) :
    |(tuneLoss loss conf).parityShards.toInt - conf.parityShards.toInt| ≤ 1 := by
  obtain ⟨h₀, h₁⟩ := h.parityShards
  have hone : (1 : Int64).toInt = 1 := rfl
  have h₀' := Int64.le_iff_toInt_le.mp h₀
  have h₁' := Int64.le_iff_toInt_le.mp h₁
  rw [show (0 : Int64).toInt = 0 from rfl] at h₀'
  rw [show (255 : Int64).toInt = 255 from rfl] at h₁'
  cases loss with
  | high =>
    dsimp only [tuneLoss]
    split
    next hc =>
      rw [minInt_succ hc.2 h₀, Int64.toInt_add, hone,
        Int.bmod_eq_of_le (by omega) (by omega), add_sub_cancel_left]
      decide
    next => simp
  | between => simp [tuneLoss]
  | low =>
    dsimp only [tuneLoss]
    split
    next hc =>
      rw [maxInt_pred hc, Int64.toInt_sub, hone,
        Int.bmod_eq_of_le (by omega) (by omega), sub_sub_cancel_left]
      decide
    next => simp

/-! ## Runs -/

/-- What the tuner is between two calls. -/
structure Sound (base : Conf) (t : AdaptiveConfigTuner) : Prop where
  baseConfig : t.baseConfig = base
  near : Near base t.currentConfig ∧
    |t.currentConfig.parityShards.toInt - base.parityShards.toInt| ≤ 1

/-- The stages start from the base again, so two tunings do not add up. -/
theorem Sound.newConfig {base : Conf} {t : AdaptiveConfigTuner} (hb : Valid base)
    (h : Sound base t) :
    Near base t.newConfig ∧ |t.newConfig.parityShards.toInt - base.parityShards.toInt| ≤ 1 := by
  have hrtt := (near_self hb).tuneRTT t.rttSamples
  have hloss := parityShards_tuneLoss hrtt.valid t.packetLoss
  rw [parityShards_tuneRTT] at hloss
  rw [AdaptiveConfigTuner.newConfig, h.baseConfig, parityShards_tuneThroughput]
  exact ⟨(hrtt.tuneLoss _).tuneThroughput _, hloss⟩

/-- One call returns a configuration near the base, and keeps the tuner so. -/
theorem Sound.exec {base : Conf} {t : AdaptiveConfigTuner} (hb : Valid base) (h : Sound base t)
    (call : Call) :
    Sound base (t.exec call).2 ∧
      ∀ conf, (t.exec call).1 = some conf → conf = (t.exec call).2.currentConfig := by
  cases call with
  | addRTTSample rtt => exact ⟨⟨h.baseConfig, h.near⟩, by intro _ hc; cases hc⟩
  | updatePacketLoss loss =>
    exact ⟨⟨h.baseConfig, h.near⟩, by intro _ hc; cases hc⟩
  | updateThroughput throughput =>
    exact ⟨⟨h.baseConfig, h.near⟩, by intro _ hc; cases hc⟩
  | tuneConfig now =>
    dsimp only [AdaptiveConfigTuner.exec, AdaptiveConfigTuner.tuneConfig]
    split
    · exact ⟨h, by intro _ hc; cases hc; rfl⟩
    · exact ⟨⟨h.baseConfig, h.newConfig hb⟩, by intro _ hc; cases hc; rfl⟩
  | getCurrentConfig => exact ⟨h, by intro _ hc; cases hc; rfl⟩
  | reset now =>
    refine ⟨⟨h.baseConfig, ?_⟩, by intro _ hc; cases hc⟩
    simpa [AdaptiveConfigTuner.exec, reset, h.baseConfig] using near_self hb

theorem Sound.returned {base : Conf} {t : AdaptiveConfigTuner} (hb : Valid base) (h : Sound base t)
    {calls : List Call} {conf : Conf} (hc : conf ∈ t.returned calls) :
    Near base conf ∧ |conf.parityShards.toInt - base.parityShards.toInt| ≤ 1 := by
  induction calls generalizing t with
  | nil => cases hc
  | cons call calls ih =>
    obtain ⟨hsound, hret⟩ := h.exec hb call
    rcases mem_returned_cons.mp hc with hnow | hlater
    · rw [hret conf hnow]
      exact hsound.near
    · exact ih hsound hlater

/-- The last `n` elements after one more element. -/
theorem rtake_concat {α : Type*} (xs : List α) (x : α) {n : Nat} (hn : 0 < n) :
    (xs ++ [x]).rtake n =
      if n < (xs.rtake n ++ [x]).length then (xs.rtake n ++ [x]).drop 1 else xs.rtake n ++ [x] := by
  simp only [List.rtake, List.length_append, List.length_singleton, List.length_drop]
  split
  next h =>
    rw [List.drop_append_of_le_length (by omega), List.drop_append_of_le_length
      (by simp only [List.length_drop]; omega), List.drop_drop]
    congr 2
    omega
  next h =>
    rw [List.drop_append_of_le_length (by omega)]
    congr 2
    omega

/-- The tuner keeps the last samples that were added. -/
theorem rttSamples_after {t : AdaptiveConfigTuner} {samples : List Duration}
    (hmax : 0 < t.maxRTTSamples) (h : t.rttSamples = samples.rtake t.maxRTTSamples)
    (calls : List Call) :
    (t.after calls).rttSamples = (added samples calls).rtake t.maxRTTSamples := by
  induction calls generalizing t samples with
  | nil => exact h
  | cons call calls ih =>
    rw [after_cons]
    cases call with
    | addRTTSample rtt =>
      refine ih (t := t.addRTTSample rtt) hmax ?_
      rw [addRTTSample, h]
      exact (rtake_concat samples rtt hmax).symm
    | updatePacketLoss loss => exact ih (t := t.updatePacketLoss loss) hmax h
    | updateThroughput throughput => exact ih (t := t.updateThroughput throughput) hmax h
    | tuneConfig now =>
      have hkeep : (t.exec (.tuneConfig now)).2.rttSamples = t.rttSamples ∧
          (t.exec (.tuneConfig now)).2.maxRTTSamples = t.maxRTTSamples := by
        dsimp only [exec, AdaptiveConfigTuner.tuneConfig]
        split <;> exact ⟨rfl, rfl⟩
      rw [← hkeep.2]
      refine ih (t := (t.exec (.tuneConfig now)).2) (by rw [hkeep.2]; exact hmax) ?_
      rw [hkeep.1, hkeep.2]
      exact h
    | getCurrentConfig => exact ih (t := t) hmax h
    | reset now => exact ih (t := t.reset now) hmax (by simp [reset])

/--
**Every configuration the tuner returns is valid and near the base, and the samples it keeps are
the last hundred.** A configuration differs from the base at most in the four fields named, and in
the number of parity shards by one at most.
-/
theorem tuned_configs_valid (text : Duration → String) (base : Conf) (created : Time)
    (hbase : validate text base = none) (calls : List Call) :
    (∀ conf ∈ (newAdaptiveConfigTuner base created).returned calls,
      validate text conf = none ∧
      conf = { base with
        noDelay := conf.noDelay
        windowSize := conf.windowSize
        parityShards := conf.parityShards
        mtu := conf.mtu } ∧
      |conf.parityShards.toInt - base.parityShards.toInt| ≤ 1) ∧
    ((newAdaptiveConfigTuner base created).after calls).rttSamples =
      (added [] calls).rtake 100 ∧
    ((newAdaptiveConfigTuner base created).after calls).rttSamples.length ≤ 100 := by
  have hb : Valid base := validate_eq_none_iff.mp hbase
  have hsound : Sound base (newAdaptiveConfigTuner base created) :=
    ⟨rfl, near_self hb, by simp [newAdaptiveConfigTuner]⟩
  have hsamples : ((newAdaptiveConfigTuner base created).after calls).rttSamples =
      (added [] calls).rtake 100 := rttSamples_after (Nat.succ_pos _) rfl calls
  refine ⟨fun conf hc => ?_, hsamples, ?_⟩
  · obtain ⟨hnear, hparity⟩ := hsound.returned hb hc
    exact ⟨validate_eq_none_iff.mpr hnear.valid, hnear.eq_base, hparity⟩
  · rw [hsamples, List.rtake, List.length_drop]
    omega

/-- A slow and lossy connection: the default configuration is really changed. -/
def slowCalls : List Call :=
  [.addRTTSample (200 * millisecond), .updatePacketLoss .high, .tuneConfig ⟨31000000000⟩]

theorem tuned_configs_valid_slowCalls :
    validate (fun _ => "") Conf.default = none ∧
    (newAdaptiveConfigTuner Conf.default Time.zero).returned slowCalls =
      [{ Conf.default with
          noDelay := (0, 20, 2, 0), windowSize := (512, 512), parityShards := 4 }] ∧
    ∀ conf ∈ (newAdaptiveConfigTuner Conf.default Time.zero).returned slowCalls,
      validate (fun _ => "") conf = none := by
  have hbase : validate (fun _ => "") Conf.default = none :=
    validate_eq_none_iff.mpr valid_default
  refine ⟨hbase, by decide, fun conf hc => ?_⟩
  exact ((tuned_configs_valid _ _ Time.zero hbase slowCalls).1 conf hc).1

end AdaptiveConfigTuner

end FabricaNet.Kcp
