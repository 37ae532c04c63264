import FabricaNet.Internal.Listener
import FabricaNet.Internal.WorkerManager
import FabricaNet.Lib.Word

/-!
# The hash of the buckets

`wyhash` and `getBucketKey` of `internal/workermanager.go`. `wyhash` folds the word three times and
multiplies it by an odd constant in between. Each of these can be undone, so `wyhash` only renames
the worker ids, and a power of two of buckets gets them in equal shares (`shard_hash_uniform`).

## The ids of one listener

They share their low four bits. For a small `g` the word `oneListener g` has a hash whose low bits
are those of `g` times the second constant of `wyhash` (`wyhash_oneListener`), while its own low
four bits come from `g` times the inverse of the first constant (`oneListener_mod`). The low bits of
`g` give the bucket. Its other bits are free, and stepping them by three moves the low four bits of
the word along a circle in steps that do not jump over any value (`exists_step_mem`).
-/

namespace FabricaNet.Internal

open Lib

/-! ## Undoing the hash -/

/-- The fold between the multiplications of `wyhash`. -/
def mix (x : UInt64) : UInt64 := x ^^^ (x >>> 33)

/-- `wyhash` backwards. -/
def unhash (x : UInt64) : UInt64 :=
  mix (mix (mix x * 0x9cb4b2f8129337db) * 0x4f74430c22a54005)

theorem wyhash_eq_mix (key : UInt64) :
    wyhash key = mix (mix (mix key * 0xff51afd7ed558ccd) * 0xc4ceb9fe1a85ec53) := rfl

theorem toNat_mix (x : UInt64) : (mix x).toNat = xorShift 33 x.toNat := by
  unfold mix xorShift
  rw [UInt64.toNat_xor, UInt64.toNat_shiftRight]
  rfl

@[simp] theorem mix_mix (x : UInt64) : mix (mix x) = x := by
  refine UInt64.toNat_inj.mp ?_
  rw [toNat_mix, toNat_mix]
  exact xorShift_xorShift (Nat.lt_of_lt_of_le (UInt64.toNat_lt x) (by decide))

/-- A multiplication is undone by one with the inverse of the constant. -/
theorem mul_mul_cancel {c inv : UInt64} (h : c * inv = 1) (x : UInt64) : x * c * inv = x := by
  rw [UInt64.mul_assoc, h, UInt64.mul_one]

theorem unhash_wyhash (key : UInt64) : unhash (wyhash key) = key := by
  rw [wyhash_eq_mix]
  unfold unhash
  rw [mix_mix, mul_mul_cancel (by decide), mix_mix, mul_mul_cancel (by decide), mix_mix]

theorem wyhash_unhash (x : UInt64) : wyhash (unhash x) = x := by
  rw [wyhash_eq_mix]
  unfold unhash
  rw [mix_mix, mul_mul_cancel (by decide), mix_mix, mul_mul_cancel (by decide), mix_mix]

theorem wyhash_bijective : Function.Bijective wyhash :=
  Function.bijective_iff_has_inverse.mpr ⟨unhash, unhash_wyhash, wyhash_unhash⟩

/-! ## Shares of the buckets -/

section Buckets

variable {shardCount : UInt64}

theorem getBucketKey_eq_iff (hpow : shardCount.toNat.isPowerOfTwo) (wid key : UInt64) :
    getBucketKey wid shardCount = key ↔ (wyhash wid).toNat % shardCount.toNat = key.toNat := by
  unfold getBucketKey
  rw [← UInt64.toNat_inj, toNat_and_sub_one hpow]

/-- **Every bucket gets the same number of worker ids.** -/
theorem card_getBucketKey (hpow : shardCount.toNat.isPowerOfTwo) {key : UInt64}
    (hkey : key < shardCount) :
    Nat.card { wid // getBucketKey wid shardCount = key } = 2 ^ 64 / shardCount.toNat := by
  calc Nat.card { wid // getBucketKey wid shardCount = key }
      = Nat.card { x : UInt64 // x.toNat % shardCount.toNat = key.toNat } :=
        Nat.card_congr ((Equiv.ofBijective wyhash wyhash_bijective).subtypeEquiv
          fun wid => getBucketKey_eq_iff hpow wid key)
    _ = Nat.card { n // n < 2 ^ 64 ∧ n % shardCount.toNat = key.toNat } :=
        card_uint64 fun n => n % shardCount.toNat = key.toNat
    _ = 2 ^ 64 / shardCount.toNat :=
        card_mod_eq (dvd_two_pow hpow (UInt64.toNat_lt _).le) (UInt64.lt_iff_toNat_lt.mp hkey)

end Buckets

/-! ## The ids of one listener -/

/-- The word that `wyhash` takes to `2 ^ 33 * g` on its way, before the second multiplication. -/
def oneListener (g : Nat) : UInt64 := mix (mix (UInt64.ofNat (2 ^ 33 * g)) * 0x4f74430c22a54005)

section OneListener

variable {g : Nat}

theorem toNat_upper (hg : g < 2 ^ 31) : (UInt64.ofNat (2 ^ 33 * g)).toNat = 2 ^ 33 * g :=
  UInt64.toNat_ofNat_of_lt' (by show _ < 2 ^ 64; omega)

theorem toNat_mix_upper (hg : g < 2 ^ 31) :
    (mix (UInt64.ofNat (2 ^ 33 * g))).toNat = 2 ^ 33 * g + g := by
  rw [toNat_mix, toNat_upper hg]
  exact xorShift_two_pow_mul (Nat.lt_of_lt_of_le hg (by decide))

/-- The low bits of the hash. -/
theorem wyhash_oneListener (hg : g < 2 ^ 31) :
    (wyhash (oneListener g)).toNat % 2 ^ 19 = g * 0xc4ceb9fe1a85ec53 % 2 ^ 19 := by
  have hhash : wyhash (oneListener g) =
      mix (UInt64.ofNat (2 ^ 33 * g) * 0xc4ceb9fe1a85ec53) := by
    rw [wyhash_eq_mix]
    unfold oneListener
    rw [mix_mix, mul_mul_cancel (by decide), mix_mix]
  have hupper : (UInt64.ofNat (2 ^ 33 * g) * 0xc4ceb9fe1a85ec53).toNat =
      2 ^ 33 * (g * 0xc4ceb9fe1a85ec53 % 2 ^ 31) := by
    rw [UInt64.toNat_mul, toNat_upper hg]
    show 2 ^ 33 * g * 0xc4ceb9fe1a85ec53 % 2 ^ 64 = _
    omega
  have hlt : g * 0xc4ceb9fe1a85ec53 % 2 ^ 31 < 2 ^ 33 := by omega
  rw [hhash, toNat_mix, hupper, xorShift_two_pow_mul hlt]
  omega

/-- The two nibbles that the fold of `2 ^ 33 * n + n` lays over each other. -/
theorem nibbles_of_doubled (n : Nat) :
    (2 ^ 33 * n + n) % 2 ^ 64 % 2 ^ 4 = n % 2 ^ 4 ∧
      (2 ^ 33 * n + n) % 2 ^ 64 / 2 ^ 33 % 2 ^ 4 = (n + n / 2 ^ 33) % 2 ^ 4 := by
  have hdiv : (2 ^ 33 * n + n) / 2 ^ 33 = n + n / 2 ^ 33 := Nat.mul_add_div (by decide) n n
  have hmod : (2 ^ 33 * n + n) % 2 ^ 64 / 2 ^ 33 = (2 ^ 33 * n + n) / 2 ^ 33 % 2 ^ 31 :=
    Nat.mod_mul_right_div_self _ (2 ^ 33) (2 ^ 31)
  rw [hmod, hdiv]
  omega

/-- The low four bits of the word. -/
theorem oneListener_mod (hg : g < 2 ^ 31) :
    (oneListener g).toNat % 2 ^ 4 = (g * 0x4f74430c22a54005 % 2 ^ 4) ^^^
      ((g * 0x4f74430c22a54005 + g * 0x4f74430c22a54005 / 2 ^ 33) % 2 ^ 4) := by
  have hc : (0x4f74430c22a54005 : UInt64).toNat = 0x4f74430c22a54005 := rfl
  have hmul : (2 ^ 33 * g + g) * 0x4f74430c22a54005 =
      2 ^ 33 * (g * 0x4f74430c22a54005) + g * 0x4f74430c22a54005 := by ring
  obtain ⟨hlow, hhigh⟩ := nibbles_of_doubled (g * 0x4f74430c22a54005)
  unfold oneListener
  rw [toNat_mix, UInt64.toNat_mul, toNat_mix_upper hg, hc, xorShift_mod_two_pow, hmul, hlow, hhigh]

/-- It is not among the first sixteen words, which no counter stands for. -/
theorem sixteen_le_oneListener (hg : g < 2 ^ 31) (hpos : 0 < g) :
    16 ≤ (oneListener g).toNat := by
  by_contra hlt
  have hsmall : mix (oneListener g) = oneListener g := by
    refine UInt64.toNat_inj.mp ?_
    rw [toNat_mix, xorShift, Nat.shiftRight_eq_div_pow, Nat.div_eq_of_lt (by omega), Nat.xor_zero]
  -- multiplied by the first constant it would give two equal halves
  have hmul : oneListener g * 0xff51afd7ed558ccd = mix (UInt64.ofNat (2 ^ 33 * g)) := by
    rw [← hsmall]
    unfold oneListener
    rw [mix_mix, mul_mul_cancel (by decide)]
  have hhalves : (2 ^ 33 * g + g) % 2 ^ 33 = (2 ^ 33 * g + g) / 2 ^ 33 := by omega
  have hnat := congrArg UInt64.toNat hmul
  have hc : (0xff51afd7ed558ccd : UInt64).toNat = 0xff51afd7ed558ccd := rfl
  rw [toNat_mix_upper hg, UInt64.toNat_mul, hc] at hnat
  have hnone : ∀ a < 16, a * 0xff51afd7ed558ccd % 2 ^ 64 % 2 ^ 33 =
      a * 0xff51afd7ed558ccd % 2 ^ 64 / 2 ^ 33 → a = 0 := by decide
  have hzero := hnone _ (Nat.lt_of_not_le hlt) (by rw [hnat]; exact hhalves)
  rw [hzero, Nat.zero_mul, Nat.zero_mod] at hnat
  omega

/-- Two nibbles that differ by `(t ^^^ n % 16) - n % 16` lie over each other as `t`. -/
theorem nibble_xor {n t : Nat} (ht : t < 2 ^ 4)
    (h : n / 2 ^ 33 % 16 = ((t ^^^ n % 2 ^ 4) + 16 - n % 2 ^ 4) % 16) :
    (n % 2 ^ 4) ^^^ ((n + n / 2 ^ 33) % 2 ^ 4) = t := by
  have hlt : t ^^^ n % 2 ^ 4 < 2 ^ 4 := Nat.xor_lt_two_pow ht (Nat.mod_lt _ (by decide))
  have hsum : (n + n / 2 ^ 33) % 2 ^ 4 = t ^^^ n % 2 ^ 4 := by omega
  rw [hsum, Nat.xor_comm t, ← Nat.xor_assoc, Nat.xor_self, Nat.zero_xor]

/-- Every net type is met, whatever the low bits of `g` are. -/
theorem exists_oneListener (low : Nat) {t : Nat} (hlow : low < 2 ^ 19) (ht : t < 2 ^ 4) :
    ∃ g, 0 < g ∧ g < 2 ^ 31 ∧ g % 2 ^ 19 = low ∧ (oneListener g).toNat % 2 ^ 4 = t := by
  obtain ⟨start, hstart⟩ : ∃ n, n = (low + 2 ^ 19) * 0x4f74430c22a54005 := ⟨_, rfl⟩
  obtain ⟨m, hm, hmem⟩ := exists_step_mem (c := 16) (L := 2 ^ 33)
    (K := 2 ^ 19 * 3 * 0x4f74430c22a54005) (s := 2 ^ 19 * 16369)
    (r := ((t ^^^ start % 2 ^ 4) + 16 - start % 2 ^ 4) % 16) (by decide) (by decide) (by decide)
    (Nat.mod_lt _ (by decide)) start
  have hm' : m ≤ 16 := hm
  have hg : low + 2 ^ 19 * (1 + 3 * m) < 2 ^ 31 := by omega
  -- the free bits of `g` do not reach the low four bits of the product
  have hn : (low + 2 ^ 19 * (1 + 3 * m)) * 0x4f74430c22a54005 =
      start + 2 ^ 19 * 3 * 0x4f74430c22a54005 * m := by rw [hstart]; ring
  have hlow4 : (start + 2 ^ 19 * 3 * 0x4f74430c22a54005 * m) % 2 ^ 4 = start % 2 ^ 4 := by
    clear hstart hmem hn
    omega
  refine ⟨low + 2 ^ 19 * (1 + 3 * m), by omega, hg, by omega, ?_⟩
  rw [oneListener_mod hg, hn]
  exact nibble_xor ht (by rw [hlow4]; exact hmem)

end OneListener

/-- A word with the net type in its low four bits is the id for a counter. -/
theorem connID_of_mod {wid : UInt64} {netType : Int64} (hn : netType.toUInt64.toNat < 16)
    (hmod : wid.toNat % 2 ^ 4 = netType.toUInt64.toNat) :
    connID (UInt64.ofNat (wid.toNat / 16)) netType = wid := by
  have hlt := UInt64.toNat_lt wid
  have hcounter : (UInt64.ofNat (wid.toNat / 16)).toNat = wid.toNat / 16 :=
    UInt64.toNat_ofNat_of_lt' (by show _ < 2 ^ 64; omega)
  refine UInt64.toNat_inj.mp ?_
  rw [connID_toNat (by omega) hn, hcounter]
  omega

/-- **One listener reaches every bucket**, when there are at most `2 ^ 19` of them. -/
theorem exists_connID {shardCount key : UInt64} {netType : Int64}
    (hpow : shardCount.toNat.isPowerOfTwo) (hle : shardCount.toNat ≤ 2 ^ 19)
    (hkey : key < shardCount) (h0 : 0 ≤ netType) (h15 : netType ≤ 15) :
    ∃ counter : UInt64, 0 < counter ∧ counter.toNat < 2 ^ 60 ∧
      getBucketKey (connID counter netType) shardCount = key := by
  have hn := toUInt64_lt_sixteen h0 h15
  have hkey' := UInt64.lt_iff_toNat_lt.mp hkey
  -- the low bits that the second constant turns into the key
  obtain ⟨g, hpos, hg, hlow, hmod⟩ := exists_oneListener
    (key.toNat * 0x9cb4b2f8129337db % 2 ^ 19) (Nat.mod_lt _ (by decide)) hn
  have hlt := UInt64.toNat_lt (oneListener g)
  have hge := sixteen_le_oneListener hg hpos
  have hcounter : (UInt64.ofNat ((oneListener g).toNat / 16)).toNat = (oneListener g).toNat / 16 :=
    UInt64.toNat_ofNat_of_lt' (by show _ < 2 ^ 64; omega)
  refine ⟨UInt64.ofNat ((oneListener g).toNat / 16), ?_, by omega, ?_⟩
  · rw [UInt64.lt_iff_toNat_lt, hcounter]
    show 0 < _
    omega
  · have hhash : (wyhash (oneListener g)).toNat % 2 ^ 19 = key.toNat := by
      calc (wyhash (oneListener g)).toNat % 2 ^ 19
          = g % 2 ^ 19 * 0xc4ceb9fe1a85ec53 % 2 ^ 19 := by
            rw [wyhash_oneListener hg, Nat.mod_mul_mod]
        _ = key.toNat * (0x9cb4b2f8129337db * 0xc4ceb9fe1a85ec53) % 2 ^ 19 := by
            rw [hlow, Nat.mod_mul_mod, Nat.mul_assoc]
        _ = key.toNat * 1 % 2 ^ 19 := Nat.ModEq.mul_left _ (by decide)
        _ = key.toNat := by rw [Nat.mul_one, Nat.mod_eq_of_lt (by omega)]
    rw [connID_of_mod hn hmod, getBucketKey_eq_iff hpow,
      ← Nat.mod_mod_of_dvd _ (dvd_two_pow hpow hle), hhash, Nat.mod_eq_of_lt hkey']

/-- More buckets than a listener has ids are not all reached by it. -/
theorem exists_bucket_not_reached {shardCount : UInt64} (hlt : 2 ^ 60 < shardCount.toNat)
    (netType : Int64) :
    ∃ key < shardCount, ∀ counter : UInt64, counter.toNat < 2 ^ 60 →
      getBucketKey (connID counter netType) shardCount ≠ key := by
  by_contra! hall
  have hkey (k : Fin shardCount.toNat) : (UInt64.ofNat k).toNat = k :=
    UInt64.toNat_ofNat_of_lt' (Nat.lt_trans k.isLt (UInt64.toNat_lt _))
  choose counter hcounter hreach using fun k : Fin shardCount.toNat =>
    hall (UInt64.ofNat k) (UInt64.lt_iff_toNat_lt.mpr (by rw [hkey]; exact k.isLt))
  -- two buckets are not reached with one counter
  have hinj : Function.Injective fun k => (⟨(counter k).toNat, hcounter k⟩ : Fin (2 ^ 60)) := by
    intro k k' heq
    have hc : counter k = counter k' := UInt64.toNat_inj.mp (Fin.mk.inj heq)
    have hk : UInt64.ofNat k = UInt64.ofNat k' := by rw [← hreach k, ← hreach k', hc]
    rw [Fin.ext_iff, ← hkey k, ← hkey k', hk]
  have hcard := Fintype.card_le_of_injective _ hinj
  rw [Fintype.card_fin, Fintype.card_fin] at hcard
  omega

/--
**`wyhash` is a bijection, so every bucket of a power of two of buckets is hit by exactly
`2 ^ 64 / shardCount` of all worker ids, and every bucket is reachable.** For up to `2 ^ 19` buckets
the ids of any one listener are enough to reach them all, although their low four bits are constant;
with more than `2 ^ 60` buckets they cannot be (`exists_bucket_not_reached`).
-/
theorem shard_hash_uniform :
    Function.Bijective wyhash ∧
    ∀ shardCount : UInt64, shardCount.toNat.isPowerOfTwo →
      (∀ wid, getBucketKey wid shardCount < shardCount) ∧
      ∀ key < shardCount,
        Nat.card { wid // getBucketKey wid shardCount = key } = 2 ^ 64 / shardCount.toNat ∧
        (∃ wid, getBucketKey wid shardCount = key) ∧
        (shardCount.toNat ≤ 2 ^ 19 → ∀ netType : Int64, 0 ≤ netType → netType ≤ 15 →
          ∃ counter : UInt64, 0 < counter ∧ counter.toNat < 2 ^ 60 ∧
            getBucketKey (connID counter netType) shardCount = key) := by
  refine ⟨wyhash_bijective, fun shardCount hpow => ⟨fun wid => ?_, fun key hkey => ?_⟩⟩
  · exact UInt64.lt_iff_toNat_lt.mpr
      (getBucketKey_lt wid (UInt64.lt_iff_toNat_lt.mpr (Nat.pos_of_isPowerOfTwo hpow)))
  · refine ⟨card_getBucketKey hpow hkey, ⟨unhash key, ?_⟩, fun hle netType h0 h15 =>
      exists_connID hpow hle hkey h0 h15⟩
    rw [getBucketKey_eq_iff hpow, wyhash_unhash]
    exact Nat.mod_eq_of_lt (UInt64.lt_iff_toNat_lt.mp hkey)

/-- The default of 256 buckets, and the ids of a KCP listener. -/
theorem shard_hash_uniform_default :
    Nat.card { wid // getBucketKey wid 256 = 255 } = 2 ^ 56 ∧
      ∃ counter : UInt64, 0 < counter ∧ counter.toNat < 2 ^ 60 ∧
        getBucketKey (connID counter NetType.kcp.toInt64) 256 = 255 := by
  obtain ⟨hcard, -, hreach⟩ := (shard_hash_uniform.2 256 ⟨8, rfl⟩).2 255 (by decide)
  exact ⟨hcard.trans (by decide), hreach (by decide) _ (by decide) (by decide)⟩

end FabricaNet.Internal
