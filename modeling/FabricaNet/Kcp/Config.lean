import FabricaNet.Go.Time
import FabricaNet.Go.Io

/-!
# KCP configurations

`conf.KCP` of `conf/conf.go` and `ConfigValidator` of `kcp/util/config.go`. `Valid` says in one
place what `Validate` checks (`validate_eq_none_iff`).
-/

namespace FabricaNet.Kcp

open Go

/-- `conf.KCP`. The two arrays are tuples. -/
structure Conf where
  writeBufSize : Int64
  readBufSize : Int64
  dataShards : Int64
  parityShards : Int64
  /-- nodelay, interval, resend, nc -/
  noDelay : Int64 × Int64 × Int64 × Int64
  /-- sndwnd, rcvwnd -/
  windowSize : Int64 × Int64
  mtu : Int64
  ackNoDelay : Bool
  writeDelay : Bool
  dscp : Int64
  smux : Bool
  smuxStreamSize : Int64
  keepAliveInterval : Duration
  keepAliveTimeout : Duration
  maxFrameSize : Int64
  maxReceiveBuffer : Int64
deriving DecidableEq, Repr

/-- The KCP part of `conf.Default`. -/
def Conf.default : Conf where
  writeBufSize := 8192
  readBufSize := 8192
  dataShards := 10
  parityShards := 3
  noDelay := (1, 10, 2, 1)
  windowSize := (128, 128)
  mtu := 1400
  ackNoDelay := true
  writeDelay := false
  dscp := 46
  smux := true
  smuxStreamSize := 4
  keepAliveInterval := 10 * second
  keepAliveTimeout := 30 * second
  maxFrameSize := 4096
  maxReceiveBuffer := 4 * 1024 * 1024

/-- The text of `%d`. -/
def decimal (n : Int64) : String := toString n.toInt

/-- `ConfigValidator.Validate`. `text` is how `%v` prints a duration. -/
def validate (text : Duration → String) (conf : Conf) : Option Err :=
  if conf.mtu < 576 ∨ conf.mtu > 1500 then
    some (.new ("invalid MTU: " ++ decimal conf.mtu ++ ", must be between 576 and 1500"))
  else if conf.dataShards < 0 ∨ conf.dataShards > 255 then
    some (.new ("invalid DataShards: " ++ decimal conf.dataShards ++
      ", must be between 0 and 255"))
  else if conf.parityShards < 0 ∨ conf.parityShards > 255 then
    some (.new ("invalid ParityShards: " ++ decimal conf.parityShards ++
      ", must be between 0 and 255"))
  else if conf.windowSize.1 ≤ 0 ∨ conf.windowSize.2 ≤ 0 then
    some (.new ("invalid WindowSize: [" ++ decimal conf.windowSize.1 ++ " " ++
      decimal conf.windowSize.2 ++ "], both send and receive windows must be positive"))
  else if conf.smuxStreamSize ≤ 0 then
    some (.new ("invalid SmuxStreamSize: " ++ decimal conf.smuxStreamSize ++ ", must be positive"))
  else if conf.keepAliveInterval ≤ 0 then
    some (.new ("invalid KeepAliveInterval: " ++ text conf.keepAliveInterval ++
      ", must be positive"))
  else if conf.keepAliveTimeout ≤ conf.keepAliveInterval then
    some (.new ("KeepAliveTimeout (" ++ text conf.keepAliveTimeout ++
      ") must be greater than KeepAliveInterval (" ++ text conf.keepAliveInterval ++ ")"))
  else none

/-- The configurations that pass. -/
structure Valid (conf : Conf) : Prop where
  mtu : 576 ≤ conf.mtu ∧ conf.mtu ≤ 1500
  dataShards : 0 ≤ conf.dataShards ∧ conf.dataShards ≤ 255
  parityShards : 0 ≤ conf.parityShards ∧ conf.parityShards ≤ 255
  windowSize : 0 < conf.windowSize.1 ∧ 0 < conf.windowSize.2
  smuxStreamSize : 0 < conf.smuxStreamSize
  keepAliveInterval : 0 < conf.keepAliveInterval
  keepAliveTimeout : conf.keepAliveInterval < conf.keepAliveTimeout

/-- **`Validate` returns nil exactly for the configurations that are valid.** -/
theorem validate_eq_none_iff {text : Duration → String} {conf : Conf} :
    validate text conf = none ↔ Valid conf := by
  have hrange : ∀ {x lo hi : Int64}, ¬(x < lo ∨ x > hi) ↔ lo ≤ x ∧ x ≤ hi := by
    intro x lo hi
    rw [not_or, Int64.not_lt, gt_iff_lt, Int64.not_lt]
  have hpos : ∀ {x y : Int64}, ¬(x ≤ 0 ∨ y ≤ 0) ↔ 0 < x ∧ 0 < y := by
    intro x y
    rw [not_or, Int64.not_le, Int64.not_le]
  constructor
  · intro h
    unfold validate at h
    split at h
    · cases h
    split at h
    · cases h
    split at h
    · cases h
    split at h
    · cases h
    split at h
    · cases h
    split at h
    · cases h
    split at h
    · cases h
    next hmtu hdata hparity hwindow hstream hinterval htimeout =>
      exact ⟨hrange.mp hmtu, hrange.mp hdata, hrange.mp hparity, hpos.mp hwindow,
        Int64.not_le.mp hstream, Int64.not_le.mp hinterval, Int64.not_le.mp htimeout⟩
  · intro h
    unfold validate
    rw [if_neg (hrange.mpr h.mtu), if_neg (hrange.mpr h.dataShards),
      if_neg (hrange.mpr h.parityShards), if_neg (hpos.mpr h.windowSize),
      if_neg (Int64.not_le.mpr h.smuxStreamSize), if_neg (Int64.not_le.mpr h.keepAliveInterval),
      if_neg (Int64.not_le.mpr h.keepAliveTimeout)]

theorem valid_default : Valid Conf.default := by
  constructor <;> decide

end FabricaNet.Kcp
