import Mathlib.Data.Set.Basic
import FabricaNet.Frame.Roundtrip

/-!
# WebSocket messages and their length headers

A WebSocket message has a length of its own, and `Decode` reads a second one from its first four
bytes. It looks for as many bytes as the header says, and the next `NextReader` throws away what is
left. So a message with bytes behind its pack is accepted too, and stands for the same pack as the
message without them.

`canonical_iff` says for which messages the two lengths agree: those that have nothing behind the
pack.
-/

namespace FabricaNet.Frame.WebSocket

open Go Xnet

/-- The length header of a message. -/
def headerLen (m : Bytes) : Int := (int32 (m.take 4)).toInt

/-- The header is complete, and `Decode` takes it. -/
def GoodHeader (m : Bytes) : Prop :=
  4 ≤ m.length ∧ 1 ≤ headerLen m ∧ headerLen m ≤ maxPackSize.toInt

/-- As many bytes follow as the header says. -/
def ExactFrame (m : Bytes) : Prop := GoodHeader m ∧ (m.length : Int) - 4 = headerLen m

/-- More bytes follow than the header says. -/
def TrailingBytes (m : Bytes) : Prop := GoodHeader m ∧ headerLen m < (m.length : Int) - 4

section
variable {κ μ ρ : Type} (g : MessageSender κ μ) (r : MessageReceiver ρ)

/-- `Decode` accepts the message, whatever comes behind it, and returns the pack. -/
def Accepts (w : World) (m : Bytes) (pack : Pack) : Prop :=
  ∀ c rest, r.messages c = (messageType, m) :: rest →
    ∃ c', receive r w c = some (pack, c') ∧ r.messages c' = rest

/-- The message is the one that `Encode` sends for the pack. -/
def Encodes (pack : Pack) (m : Bytes) : Prop :=
  ∀ c, g.Healthy c →
    ∃ c', encode g c pack = (none, c') ∧ g.wire c' = (g.wire c).push (messageType, m)

/-- The messages in the set are canonical. -/
structure Canonical (w : World) (S : Set Bytes) : Prop where
  encodes : ∀ m ∈ S, ∀ pack, Accepts r w m pack → Encodes g pack m
  exact_iff : ∀ m ∈ S, (∃ pack, Accepts r w m pack) ↔ ExactFrame m
  inj : ∀ m ∈ S, ∀ m' ∈ S, ∀ pack, Accepts r w m pack → Accepts r w m' pack → m = m'

end

section
variable {κ μ ρ : Type} {g : MessageSender κ μ} {r : MessageReceiver ρ} {w : World} {m : Bytes}
  {pack : Pack}

theorem accepts_iff : Accepts r w m pack ↔ ∃ tail, parseFrame m = some (pack, tail) := by
  constructor
  · intro h
    have hmessages := r.messages_holding [(messageType, m)]
    obtain ⟨c', hread, -⟩ := h _ _ hmessages
    obtain ⟨c₁, hnext, -⟩ := r.nextReader_cons _ _ _ hmessages
    rw [receive_eq w hnext] at hread
    obtain ⟨⟨pack', tail⟩, hparse, heq⟩ := Option.map_eq_some_iff.mp hread
    cases heq
    exact ⟨tail, hparse⟩
  · rintro ⟨tail, hparse⟩ c rest hmessages
    obtain ⟨c', hnext, hrest⟩ := r.nextReader_cons c _ _ hmessages
    rw [receive_eq w hnext, hparse]
    exact ⟨c', rfl, hrest⟩

theorem encodes_iff : Encodes g pack m ↔ m = frame pack := by
  constructor
  · intro h
    obtain ⟨c', hencode, hwire⟩ := h g.fresh g.healthy_fresh
    obtain ⟨c₁, hencode₁, -, hwire₁⟩ := encode_healthy g.healthy_fresh pack
    cases hencode.symm.trans hencode₁
    have hsent := congrArg Wire.sent (hwire.symm.trans hwire₁)
    simpa [Wire.push] using hsent
  · rintro rfl c hc
    obtain ⟨c', hencode, -, hwire⟩ := encode_healthy hc pack
    exact ⟨c', hencode, hwire⟩

/-- `Decode` asks for no more than a good header and enough bytes. -/
theorem parseFrame_cond_iff :
    (4 ≤ m.length ∧ badPackLen (int32 (m.take 4)) = false ∧
      (int32 (m.take 4)).toInt.toNat ≤ (m.drop 4).length) ↔
    GoodHeader m ∧ headerLen m ≤ (m.length : Int) - 4 := by
  have hmax : maxPackSize.toInt = 16384 := by decide
  rw [badPackLen_eq_false, List.length_drop, GoodHeader, headerLen, hmax]
  omega

theorem exists_accepts_iff :
    (∃ pack, Accepts r w m pack) ↔ GoodHeader m ∧ headerLen m ≤ (m.length : Int) - 4 := by
  simp only [accepts_iff]
  rw [← parseFrame_cond_iff]
  constructor
  · rintro ⟨pack, tail, hparse⟩
    by_contra hnot
    simp only [parseFrame, if_neg hnot] at hparse
    cases hparse
  · intro h
    exact ⟨_, _, if_pos h⟩

/-- What is behind the pack of an accepted message. -/
theorem tail_eq_nil_iff {tail : Bytes} (h : parseFrame m = some (pack, tail)) :
    tail = [] ↔ ¬TrailingBytes m := by
  unfold parseFrame at h
  simp only at h
  split at h
  next hc =>
    cases h
    have hgood := parseFrame_cond_iff.mp hc
    have hpos := hgood.1.2.1
    rw [List.drop_eq_nil_iff, List.length_drop, TrailingBytes, and_iff_right hgood.1]
    unfold headerLen at hpos ⊢
    omega
  next => cases h

end

/-- **Messages are canonical exactly when none of them has bytes behind its pack.** -/
theorem canonical_iff {κ μ ρ : Type} (g : MessageSender κ μ) (r : MessageReceiver ρ) (w : World)
    (S : Set Bytes) : Canonical g r w S ↔ ∀ m ∈ S, ¬TrailingBytes m := by
  constructor
  · intro h m hm htrailing
    obtain ⟨pack, haccepts⟩ : ∃ pack, Accepts r w m pack :=
      exists_accepts_iff.mpr ⟨htrailing.1, htrailing.2.le⟩
    obtain ⟨tail, hparse⟩ := accepts_iff.mp haccepts
    -- the message is the frame of the pack, and the frame of the pack with the tail
    have hframe := encodes_iff.mp (h.encodes m hm pack haccepts)
    have hsplit := (frameCode_exact m pack tail hparse).2
    have hnil : tail = [] := by
      rw [hframe] at hsplit
      exact List.append_right_eq_self.mp hsplit.symm
    exact (tail_eq_nil_iff hparse).mp hnil htrailing
  · intro h
    have hencodes : ∀ m ∈ S, ∀ pack, Accepts r w m pack → m = frame pack := by
      intro m hm pack haccepts
      obtain ⟨tail, hparse⟩ := accepts_iff.mp haccepts
      have hsplit := (frameCode_exact m pack tail hparse).2
      rw [(tail_eq_nil_iff hparse).mpr (h m hm), List.append_nil] at hsplit
      exact hsplit
    refine ⟨fun m hm pack ha => encodes_iff.mpr (hencodes m hm pack ha), fun m hm => ?_, ?_⟩
    · rw [exists_accepts_iff]
      constructor
      · rintro ⟨hgood, hle⟩
        have hnot := h m hm
        exact ⟨hgood, by by_contra hne; exact hnot ⟨hgood, by omega⟩⟩
      · rintro ⟨hgood, heq⟩
        exact ⟨hgood, heq.ge⟩
    · intro m hm m' hm' pack ha ha'
      rw [hencodes m hm pack ha, hencodes m' hm' pack ha']

/-- A message with one byte behind its pack is decoded like the one without. -/
theorem trailing_byte_accepted :
    Accepts plainReceiver World.bare [0, 0, 0, 1, 7, 9] [7] ∧
    Accepts plainReceiver World.bare [0, 0, 0, 1, 7] [7] ∧
    encode plainSender plainSender.fresh [7] =
      (none, ⟨⟨[(2, [0, 0, 0, 1, 7])], none, false⟩, none⟩) ∧
    ¬ExactFrame [0, 0, 0, 1, 7, 9] ∧
    ¬Canonical plainSender plainReceiver World.bare {[0, 0, 0, 1, 7, 9]} := by
  have hnot : ¬ExactFrame [0, 0, 0, 1, 7, 9] := fun h => absurd h.2 (by decide)
  have haccepts : Accepts plainReceiver World.bare [0, 0, 0, 1, 7, 9] [7] :=
    accepts_iff.mpr ⟨[9], rfl⟩
  refine ⟨haccepts, accepts_iff.mpr ⟨[], rfl⟩, rfl, hnot, fun h => ?_⟩
  exact hnot ((h.exact_iff _ rfl).mp ⟨_, haccepts⟩)

end FabricaNet.Frame.WebSocket
