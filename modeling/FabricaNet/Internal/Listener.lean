import Mathlib.Data.Nat.Bitwise

/-!
# Connection ids

`internal/listener.go` and `internal/conn.go`. Every listener owns a `ConnIDGenerator`. An id is the
generator's counter, shifted left by four bits, with the net type in the low bits. A listener hands
a connection over in a `ConnCarrier`.

* `connID_toNat` — the id as a number, as long as the counter stays below `2 ^ 60`
* `connID_inj` — below that bound an id determines the counter value and the net type
-/

namespace FabricaNet.Internal

/-- The net types of the listeners: `NetTypeTCP`, `NetTypeWebSocket` and `NetTypeKCP`. -/
inductive NetType where
  | tcp
  | webSocket
  | kcp
deriving DecidableEq, Repr

/-- The value `iota` gives the constant. -/
def NetType.toInt64 : NetType → Int64
  | .tcp => 0
  | .webSocket => 1
  | .kcp => 2

/-- `ConnIDGenerator`. -/
structure ConnIDGenerator where
  counter : UInt64
  netType : Int64

/-- `NewConnIDGenerator`. -/
def newConnIDGenerator (netType : Int64) : ConnIDGenerator :=
  { counter := 0, netType := netType }

/-- The id for a counter value: `counter<<4 | uint64(netType)`. -/
def connID (counter : UInt64) (netType : Int64) : UInt64 := counter <<< 4 ||| netType.toUInt64

/-- `ConnIDGenerator.Next`: the id and the generator after the call. -/
def ConnIDGenerator.next (g : ConnIDGenerator) : UInt64 × ConnIDGenerator :=
  let counter := g.counter + 1
  (connID counter g.netType, { g with counter := counter })

/-- `ConnCarrier`. Connections are given by a number, and `none` is nil. -/
structure ConnCarrier where
  id : UInt64
  conn : Option Nat
  /-- the connection that the codec reads from -/
  codec : Option Nat
deriving DecidableEq, Repr

/-- `NewConnCarrier`. -/
def newConnCarrier (id : UInt64) (conn codec : Nat) : ConnCarrier :=
  { id := id, conn := some conn, codec := some codec }

/-- `ConnCarrier{}`. -/
def ConnCarrier.zero : ConnCarrier := { id := 0, conn := none, codec := none }

/-! ## Ids as numbers -/

theorem NetType.toInt64_mem (n : NetType) : 0 ≤ n.toInt64 ∧ n.toInt64 ≤ 15 := by
  cases n <;> decide

theorem NetType.toUInt64_lt (n : NetType) : n.toInt64.toUInt64.toNat < 16 := by
  cases n <;> decide

theorem NetType.toUInt64_inj {n n' : NetType}
    (h : n.toInt64.toUInt64 = n'.toInt64.toUInt64) : n = n' := by
  cases n <;> cases n' <;> first | rfl | exact absurd h (by decide)

/-- A net type in `0..15` fills at most four bits. -/
theorem toUInt64_lt_sixteen {netType : Int64} (h0 : 0 ≤ netType) (h15 : netType ≤ 15) :
    netType.toUInt64.toNat < 16 := by
  have hlow : 0 ≤ netType.toBitVec.toInt := Int64.le_iff_toInt_le.mp h0
  have hhigh : netType.toBitVec.toInt ≤ 15 := Int64.le_iff_toInt_le.mp h15
  have hlt := netType.toBitVec.isLt
  rw [BitVec.toInt_eq_toNat_cond] at hlow hhigh
  show netType.toBitVec.toNat < 16
  split at hlow <;> omega

theorem toUInt64_inj {netType netType' : Int64}
    (h : netType.toUInt64 = netType'.toUInt64) : netType = netType' := by
  rw [← Int64.toInt64_toUInt64 netType, h, Int64.toInt64_toUInt64]

/-- Below `2 ^ 60` the shift loses no bit, and the net type fills the four bits it frees. -/
theorem connID_toNat {counter : UInt64} {netType : Int64} (hc : counter.toNat < 2 ^ 60)
    (hn : netType.toUInt64.toNat < 16) :
    (connID counter netType).toNat = counter.toNat * 16 + netType.toUInt64.toNat := by
  have hshift : (counter <<< 4).toNat = counter.toNat <<< 4 := by
    rw [UInt64.toNat_shiftLeft]
    rw [show (4 : UInt64).toNat % 64 = 4 from rfl, Nat.shiftLeft_eq]
    exact Nat.mod_eq_of_lt (by omega)
  unfold connID
  rw [UInt64.toNat_or, hshift, ← Nat.shiftLeft_add_eq_or_of_lt (by simpa using hn),
    Nat.shiftLeft_eq]

theorem ConnIDGenerator.toNat_next_counter {g : ConnIDGenerator}
    (h : g.counter.toNat + 1 < 2 ^ 60) : (g.counter + 1).toNat = g.counter.toNat + 1 := by
  rw [UInt64.toNat_add]
  exact Nat.mod_eq_of_lt (by simp only [UInt64.toNat_one]; omega)

/-- **Below `2 ^ 60` ids are unique across net types.** -/
theorem connID_inj {c c' : UInt64} {n n' : Int64} (hc : c.toNat < 2 ^ 60)
    (hc' : c'.toNat < 2 ^ 60) (hn : n.toUInt64.toNat < 16) (hn' : n'.toUInt64.toNat < 16)
    (h : connID c n = connID c' n') : c = c' ∧ n.toUInt64 = n'.toUInt64 := by
  have hnat := congrArg UInt64.toNat h
  rw [connID_toNat hc hn, connID_toNat hc' hn'] at hnat
  exact ⟨UInt64.toNat_inj.mp (by omega), UInt64.toNat_inj.mp (by omega)⟩

end FabricaNet.Internal
