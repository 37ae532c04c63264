import FabricaNet.Client.Dialer

/-!
# Which dialog ids are distinct

`DialogID` packs a client id and an index with the stride 100, in 64 bits. Two things can go wrong:
an index of 100 or more reaches into the next client id, and the product wraps around.
`identifies_iff` says for which clients and dialers neither happens. The condition looks at one
number, the difference of the ids times 100 in 64 bits: it must not be the difference of two
indexes.
-/

namespace FabricaNet.Client

open Go

/-- Dialog ids are equal when the difference of the client ids makes up for that of the indexes. -/
theorem dialogID_eq_iff {id id' i i' : Int64} :
    dialogID id i = dialogID id' i' ↔ (id - id') * 100 = i' - i := by
  have hpack : ∀ id i : Int64, dialogID id i = (id * 100 + i).toUInt64 := by
    intro id i
    rw [Int64.toUInt64_add, Int64.toUInt64_mul]
    rfl
  rw [hpack, hpack]
  constructor
  · intro h
    have hsum : id * 100 + i = id' * 100 + i' := by
      rw [← Int64.toInt64_toUInt64 (id * 100 + i), h, Int64.toInt64_toUInt64]
    grind
  · intro h
    rw [show id * 100 + i = id' * 100 + i' by grind]

/-- The difference of two indexes does not wrap around. -/
theorem toInt_sub_ofNat {i i' : Nat} (hi : i < 2 ^ 63) (hi' : i' < 2 ^ 63) :
    (Int64.ofNat i' - Int64.ofNat i).toInt = (i' : Int) - i := by
  rw [Int64.toInt_sub, Int64.toInt_ofNat_of_lt hi, Int64.toInt_ofNat_of_lt hi']
  exact Int.bmod_eq_of_le (by omega) (by omega)

/-- One client never has two dialogs with the same id. -/
theorem dialogID_index_inj {id : Int64} {i i' : Nat} (hi : i < 2 ^ 63) (hi' : i' < 2 ^ 63)
    (h : dialogID id (Int64.ofNat i) = dialogID id (Int64.ofNat i')) : i = i' := by
  have hsub := toInt_sub_ofNat hi hi'
  rw [← dialogID_eq_iff.mp h, Int64.sub_self, Int64.zero_mul,
    show (0 : Int64).toInt = 0 from rfl] at hsub
  omega

namespace Transport

theorem last_lt (t : Transport) : t.last < 2 ^ 63 := by
  cases t with
  | tcp => decide
  | webSocket => decide
  | kcp conf =>
    have hlt := Int64.toInt_lt conf.smuxStreamSize
    simp only [last, Kcp.Conf.streams]
    split
    · omega
    · decide

theorem lt_of_mem_indexes {t : Transport} {i : Nat} (h : i ∈ t.indexes) : i < 2 ^ 63 :=
  Nat.lt_of_le_of_lt (mem_indexes.mp h).2 t.last_lt

/-- A dialer that its constructor accepts has at least one index. -/
theorem first_le_last {text : Duration → String} {t : Transport} (h : t.Accepted text) :
    t.first ≤ t.last := by
  cases t with
  | tcp => decide
  | webSocket => decide
  | kcp conf =>
    have hpos := Int64.lt_iff_toInt_lt.mp (Kcp.validate_eq_none_iff.mp h).smuxStreamSize
    rw [show (0 : Int64).toInt = 0 from rfl] at hpos
    cases hsmux : conf.smux with
    | false => simp [first, last, usesSmux, hsmux]
    | true =>
      simp only [first, last, usesSmux, hsmux, Kcp.Conf.streams, if_true]
      omega

/-- The dialog ids of two clients tell the clients and the indexes apart. -/
def Identifies (t t' : Transport) (id id' : Int64) : Prop :=
  ∀ i ∈ t.indexes, ∀ i' ∈ t'.indexes,
    dialogID id (Int64.ofNat i) = dialogID id' (Int64.ofNat i') → id = id' ∧ i = i'

/-- Two indexes have the same dialog id exactly when they differ by that one number. -/
theorem dialogID_eq_iff_of_mem {t t' : Transport} {id id' : Int64} {i i' : Nat}
    (hi : i ∈ t.indexes) (hi' : i' ∈ t'.indexes) :
    dialogID id (Int64.ofNat i) = dialogID id' (Int64.ofNat i') ↔
      ((id - id') * 100).toInt = (i' : Int) - i := by
  rw [dialogID_eq_iff, ← Int64.toInt_inj,
    toInt_sub_ofNat (lt_of_mem_indexes hi) (lt_of_mem_indexes hi')]

/--
**The dialog ids of two clients tell them apart exactly when the clients are the same, or the
difference of their ids times 100, in 64 bits, is no difference of two indexes.**
-/
theorem identifies_iff (text : Duration → String) (t t' : Transport) (ht : t.Accepted text)
    (ht' : t'.Accepted text) (id id' : Int64) :
    Identifies t t' id id' ↔
      id = id' ∨ ((id - id') * 100).toInt < (t'.first : Int) - t.last ∨
        (t'.last : Int) - t.first < ((id - id') * 100).toInt := by
  constructor
  · intro h
    by_contra hnot
    obtain ⟨hid, hlo, hhi⟩ : id ≠ id' ∧ (t'.first : Int) - t.last ≤ ((id - id') * 100).toInt ∧
        ((id - id') * 100).toInt ≤ (t'.last : Int) - t.first := by
      grind
    have hle := first_le_last ht
    have hle' := first_le_last ht'
    -- the smallest index that has a partner
    obtain ⟨i, hi⟩ : ∃ i : Nat, (i : Int) =
        max (t.first : Int) (t'.first - ((id - id') * 100).toInt) :=
      ⟨(max (t.first : Int) (t'.first - ((id - id') * 100).toInt)).toNat, by omega⟩
    obtain ⟨i', hi'⟩ : ∃ i' : Nat, (i' : Int) = i + ((id - id') * 100).toInt :=
      ⟨((i : Int) + ((id - id') * 100).toInt).toNat, by omega⟩
    have hmem : i ∈ t.indexes := mem_indexes.mpr (by omega)
    have hmem' : i' ∈ t'.indexes := mem_indexes.mpr (by omega)
    exact hid (h i hmem i' hmem' ((dialogID_eq_iff_of_mem hmem hmem').mpr (by omega))).1
  · intro h i hi i' hi' heq
    rcases h with rfl | hapart
    · exact ⟨rfl, dialogID_index_inj (lt_of_mem_indexes hi) (lt_of_mem_indexes hi') heq⟩
    · rw [dialogID_eq_iff_of_mem hi hi'] at heq
      have hrange := mem_indexes.mp hi
      have hrange' := mem_indexes.mp hi'
      omega

/-- A stream size of 100, which the validator accepts. -/
def hundredStreams : Kcp.Conf := { Kcp.Conf.default with smuxStreamSize := 100 }

/-- No streams. -/
def noSmux : Kcp.Conf := { Kcp.Conf.default with smux := false }

theorem valid_hundredStreams : Kcp.Valid hundredStreams := by constructor <;> decide

theorem valid_noSmux : Kcp.Valid noSmux := by constructor <;> decide

/-- The default configuration keeps the dialogs of the clients 1 and 2 apart. -/
theorem identifies_iff_default :
    Identifies (.kcp Kcp.Conf.default) (.kcp Kcp.Conf.default) 1 2 := by
  have haccepted : Accepted (fun _ => "") (.kcp Kcp.Conf.default) :=
    Kcp.validate_eq_none_iff.mpr Kcp.valid_default
  exact (identifies_iff _ _ _ haccepted haccepted 1 2).mpr (by decide)

/--
The hundredth stream of client 0 has the id of the only dialog of client 1. Without streams the
clients 0 and `2 ^ 62` have the same id.
-/
theorem dialog_ids_collide :
    (Accepted (fun _ => "") (.kcp hundredStreams) ∧ Accepted (fun _ => "") (.kcp noSmux)) ∧
    (100 ∈ (kcp hundredStreams).indexes ∧ 0 ∈ (kcp noSmux).indexes) ∧
    dialogID 0 (Int64.ofNat 100) = dialogID 1 (Int64.ofNat 0) ∧
    dialogID 0 (Int64.ofNat 0) = dialogID 4611686018427387904 (Int64.ofNat 0) ∧
    ¬Identifies (.kcp hundredStreams) (.kcp noSmux) 0 1 ∧
    ¬Identifies (.kcp noSmux) (.kcp noSmux) 0 4611686018427387904 := by
  have hhundred : 100 ∈ (kcp hundredStreams).indexes := mem_indexes.mpr (by decide)
  have hzero : 0 ∈ (kcp noSmux).indexes := mem_indexes.mpr (by decide)
  refine ⟨⟨Kcp.validate_eq_none_iff.mpr valid_hundredStreams,
    Kcp.validate_eq_none_iff.mpr valid_noSmux⟩, ⟨hhundred, hzero⟩, by decide, by decide, ?_, ?_⟩
  · intro h
    exact absurd (h 100 hhundred 0 hzero (by decide)).1 (by decide)
  · intro h
    exact absurd (h 0 hzero 0 hzero (by decide)).1 (by decide)

/-- Fewer than 100 streams and client ids below `2 ^ 56` are safe. -/
theorem identifies_of_small {t t' : Transport} (hlast : t.last < 100) (hlast' : t'.last < 100)
    {id id' : Int64} (hid : 0 ≤ id.toInt ∧ id.toInt < 2 ^ 56)
    (hid' : 0 ≤ id'.toInt ∧ id'.toInt < 2 ^ 56) : Identifies t t' id id' := by
  intro i hi i' hi' heq
  rw [dialogID_eq_iff_of_mem hi hi'] at heq
  have hrange := mem_indexes.mp hi
  have hrange' := mem_indexes.mp hi'
  -- neither the difference nor the product wraps around
  have hexact : ((id - id') * 100).toInt = (id.toInt - id'.toInt) * 100 := by
    have hsub : (id - id').toInt = id.toInt - id'.toInt := by
      rw [Int64.toInt_sub]
      exact Int.bmod_eq_of_le (by omega) (by omega)
    rw [Int64.toInt_mul, hsub, show (100 : Int64).toInt = 100 from rfl]
    exact Int.bmod_eq_of_le (by omega) (by omega)
  rw [hexact] at heq
  exact ⟨Int64.toInt_inj.mp (by omega), by omega⟩

end Transport

end FabricaNet.Client
