import FabricaNet.Internal.Listener
import FabricaNet.Lib.Run

/-!
# Ids across listeners

`internal/listener.go`. Several generators, and calls of `Next` on them in any interleaving. What
`Next` shares with other calls is one atomic increment, so a run is the list of the generators that
are called, in the order of the increments.

A generator's counter is the number of ids it has issued. Every id that has been issued stands for a
counter value up to that number and for the net type of its generator, so a new id is larger than
those of the same generator and differs from the others in the low four bits.
-/

namespace FabricaNet.Internal

open Lib

/-- Pairwise distinct net types that fit into four bits. -/
structure NetTypes where
  types : List Int64
  range : ∀ t ∈ types, 0 ≤ t ∧ t ≤ 15
  nodup : types.Nodup

theorem NetTypes.toNat_lt {netTypes : NetTypes} {i : Nat} {t : Int64}
    (h : netTypes.types[i]? = some t) : t.toUInt64.toNat < 16 := by
  obtain ⟨h0, h15⟩ := netTypes.range t (List.mem_of_getElem? h)
  exact toUInt64_lt_sixteen h0 h15

/-- Several generators, and what `Next` has returned so far: the generator and the id. -/
structure Generators where
  gens : List ConnIDGenerator
  issued : List (Nat × UInt64)

namespace Generators

/-- New generators for the net types. -/
def init (netTypes : NetTypes) : Generators :=
  { gens := netTypes.types.map newConnIDGenerator, issued := [] }

/-- `Next` of the `i`-th generator. -/
def step (s : Generators) (i : Nat) : Option Generators :=
  s.gens[i]?.map fun g =>
    { gens := s.gens.set i g.next.2, issued := s.issued ++ [(i, g.next.1)] }

/-- How many ids the `i`-th generator has issued. -/
def count (s : Generators) (i : Nat) : Nat := (s.issued.map Prod.fst).count i

/-- An id and a later one: they differ, and those of one generator increase. -/
def Before (e e' : Nat × UInt64) : Prop := e.2 ≠ e'.2 ∧ (e.1 = e'.1 → e.2 < e'.2)

/-- The id is that of the generator for one of the counter values `1..n`. -/
def IsId (netTypes : NetTypes) (n : Nat) (e : Nat × UInt64) : Prop :=
  ∃ t, netTypes.types[e.1]? = some t ∧
    ∃ c, 0 < c ∧ c ≤ n ∧ e.2.toNat = c * 16 + t.toUInt64.toNat

/-- How the counters and the ids go together. -/
structure Tracked (netTypes : NetTypes) (s : Generators) : Prop where
  counters : ∀ i, s.gens[i]? =
    netTypes.types[i]?.map (ConnIDGenerator.mk (UInt64.ofNat (s.count i)))
  isId : ∀ e ∈ s.issued, IsId netTypes (s.count e.1) e
  before : s.issued.Pairwise Before

variable {netTypes : NetTypes} {s s' : Generators} {i : Nat}

theorem tracked_init (netTypes : NetTypes) : Tracked netTypes (init netTypes) where
  counters _ := List.getElem?_map
  isId _ he := absurd he List.not_mem_nil
  before := List.Pairwise.nil

/-! ## One call -/

theorem count_issue (s : Generators) (gens : List ConnIDGenerator) (i j : Nat) (id : UInt64) :
    count { gens := gens, issued := s.issued ++ [(i, id)] } j =
      s.count j + if i = j then 1 else 0 := by
  unfold count
  rw [List.map_append, List.count_append]
  simp [List.count_singleton]

/-- A new id comes after every id with a smaller counter value. -/
theorem IsId.before {n : Nat → Nat} {e : Nat × UInt64} {id : UInt64} {t : Int64}
    (he : IsId netTypes (n e.1) e) (ht : netTypes.types[i]? = some t)
    (hid : id.toNat = (n i + 1) * 16 + t.toUInt64.toNat) : Before e (i, id) := by
  obtain ⟨t', ht', c, -, hc, heq⟩ := he
  have hlt := NetTypes.toNat_lt ht
  have hlt' := NetTypes.toNat_lt ht'
  by_cases hi : e.1 = i
  · subst hi
    cases ht.symm.trans ht'
    have hless : e.2 < id := UInt64.lt_iff_toNat_lt.mpr (by omega)
    exact ⟨UInt64.ne_of_lt hless, fun _ => hless⟩
  · refine ⟨fun h => ?_, fun h => absurd h hi⟩
    -- the low four bits would be those of two generators
    have hnat : e.2.toNat = id.toNat := congrArg UInt64.toNat h
    have htypes : t' = t := toUInt64_inj (UInt64.toNat_inj.mp (by omega))
    rw [htypes] at ht'
    have hlength := (List.getElem?_eq_some_iff.mp ht').1
    exact hi ((List.getElem?_inj hlength netTypes.nodup).mp (ht'.trans ht.symm))

/-- **A call keeps the counters and the ids together**, as long as the counter is below `2 ^ 60`. -/
theorem Tracked.next (h : Tracked netTypes s) (hstep : s.step i = some s')
    (hcount : s.count i + 1 < 2 ^ 60) : Tracked netTypes s' := by
  obtain ⟨g, hg, rfl⟩ := Option.map_eq_some_iff.mp hstep
  have hg' := h.counters i
  rw [hg] at hg'
  obtain ⟨t, ht, rfl⟩ := Option.map_eq_some_iff.mp hg'.symm
  have hnext : (UInt64.ofNat (s.count i) + 1).toNat = s.count i + 1 := by
    rw [UInt64.toNat_add, UInt64.toNat_ofNat']
    show (s.count i % 2 ^ 64 + 1) % 2 ^ 64 = _
    omega
  have hid : (connID (UInt64.ofNat (s.count i) + 1) t).toNat =
      (s.count i + 1) * 16 + t.toUInt64.toNat := by
    rw [connID_toNat (by omega) (NetTypes.toNat_lt ht), hnext]
  refine ⟨fun j => ?_, fun e he => ?_, ?_⟩
  · rw [count_issue, List.getElem?_set]
    by_cases hij : i = j
    · subst hij
      have hlength := (List.getElem?_eq_some_iff.mp hg).1
      rw [if_pos rfl, if_pos hlength, if_pos rfl, ht, UInt64.ofNat_add]
      rfl
    · rw [if_neg hij, if_neg hij]
      exact h.counters j
  · rcases List.mem_append.mp he with hold | hnew
    · obtain ⟨t', ht', c, hpos, hle, heq⟩ := h.isId e hold
      rw [count_issue]
      exact ⟨t', ht', c, hpos, Nat.le_add_right_of_le hle, heq⟩
    · obtain rfl := List.mem_singleton.mp hnew
      rw [count_issue, if_pos rfl]
      exact ⟨t, ht, s.count i + 1, Nat.succ_pos _, Nat.le_refl _, hid⟩
  · refine List.pairwise_append.mpr ⟨h.before, List.pairwise_singleton .., fun e he e' he' => ?_⟩
    obtain rfl := List.mem_singleton.mp he'
    exact (h.isId e he).before ht hid

/-! ## Runs -/

theorem step_isSome (h : Tracked netTypes s) (hi : i < netTypes.types.length) :
    ∃ s', s.step i = some s' := by
  have hg := h.counters i
  rw [List.getElem?_eq_getElem hi] at hg
  exact ⟨_, by rw [step, hg]; rfl⟩

theorem map_fst_issued (hstep : s.step i = some s') :
    s'.issued.map Prod.fst = s.issued.map Prod.fst ++ [i] := by
  obtain ⟨g, -, rfl⟩ := Option.map_eq_some_iff.mp hstep
  exact List.map_append

/-- **Calls of any generators, in any order.** -/
theorem Tracked.afterCalls (h : Tracked netTypes s) {calls : List Nat}
    (hcalls : ∀ i ∈ calls, i < netTypes.types.length)
    (hcount : ∀ i, s.count i + calls.count i < 2 ^ 60) :
    ∃ s', run step s calls = some s' ∧ Tracked netTypes s' ∧
      s'.issued.map Prod.fst = s.issued.map Prod.fst ++ calls := by
  induction calls generalizing s with
  | nil => exact ⟨s, rfl, h, (List.append_nil _).symm⟩
  | cons i calls ih =>
    obtain ⟨hi, hrest⟩ := List.forall_mem_cons.mp hcalls
    obtain ⟨s₁, hs₁⟩ := step_isSome h hi
    have hfst := map_fst_issued hs₁
    have hcount₁ (j : Nat) : s₁.count j + calls.count j < 2 ^ 60 := by
      have hj := hcount j
      rw [← List.singleton_append, List.count_append] at hj
      unfold count at hj ⊢
      rw [hfst, List.count_append]
      omega
    have hlt : s.count i + 1 < 2 ^ 60 := by
      have hi := hcount i
      rw [List.count_cons_self] at hi
      omega
    obtain ⟨s', hrun, htracked, hissued⟩ := ih (h.next hs₁ hlt) hrest hcount₁
    refine ⟨s', run_cons_eq_some.mpr ⟨s₁, hs₁, hrun⟩, htracked, ?_⟩
    rw [hissued, hfst, List.append_assoc]
    rfl

/-- The counter value makes the id positive, and the net type is in its low four bits. -/
theorem IsId.ne_zero_and_netType {n : Nat} {e : Nat × UInt64} (h : IsId netTypes n e) :
    e.2 ≠ 0 ∧ netTypes.types[e.1]? = some (e.2 &&& 0xf).toInt64 := by
  obtain ⟨t, ht, c, hpos, -, heq⟩ := h
  have hlt := NetTypes.toNat_lt ht
  constructor
  · intro h0
    rw [h0, UInt64.toNat_zero] at heq
    omega
  · have hand : e.2 &&& 0xf = t.toUInt64 := by
      refine UInt64.toNat_inj.mp ?_
      rw [UInt64.toNat_and, heq]
      show _ &&& (2 ^ 4 - 1) = _
      rw [Nat.and_two_pow_sub_one_eq_mod]
      omega
    rw [hand, ht]
    rfl

/--
**Ids are unique across transports.** However the calls of `Next` on generators with different net
types interleave, as long as each generator is called fewer than `2 ^ 60` times: every call issues
an id, no id is zero, all ids differ, those of one generator increase in the order of the
increments, and `id & 0xf` is the net type of the generator.
-/
theorem ids_unique (netTypes : NetTypes) (calls : List Nat)
    (hcalls : ∀ i ∈ calls, i < netTypes.types.length) (hcount : ∀ i, calls.count i < 2 ^ 60) :
    ∃ s, run step (init netTypes) calls = some s ∧
      s.issued.map Prod.fst = calls ∧
      (∀ e ∈ s.issued, e.2 ≠ 0) ∧
      (s.issued.map Prod.snd).Nodup ∧
      (∀ i, ((s.issued.filter fun e => e.1 = i).map Prod.snd).Pairwise (· < ·)) ∧
      ∀ e ∈ s.issued, netTypes.types[e.1]? = some (e.2 &&& 0xf).toInt64 := by
  have h₀ := tracked_init netTypes
  obtain ⟨s, hrun, h, hissued⟩ := h₀.afterCalls hcalls fun i => by
    rw [show count (init netTypes) i = 0 from rfl, Nat.zero_add]
    exact hcount i
  refine ⟨s, hrun, hissued, fun e he => (h.isId e he).ne_zero_and_netType.1, ?_, fun i => ?_,
    fun e he => (h.isId e he).ne_zero_and_netType.2⟩
  · exact List.pairwise_map.mpr (h.before.imp fun hb => hb.1)
  · refine List.pairwise_map.mpr (List.pairwise_filter.mpr (h.before.imp ?_))
    intro e e' hb he he'
    exact hb.2 ((of_decide_eq_true he).trans (of_decide_eq_true he').symm)

/-- A TCP, a WebSocket and a KCP listener. -/
theorem ids_unique_three_listeners :
    ∃ netTypes : NetTypes, netTypes.types = [NetType.tcp, .webSocket, .kcp].map NetType.toInt64 ∧
      ∃ s, run step (init netTypes) [0, 2, 0, 1, 2] = some s ∧
        s.issued.map Prod.fst = [0, 2, 0, 1, 2] ∧ (s.issued.map Prod.snd).Nodup := by
  let netTypes : NetTypes :=
    ⟨[NetType.tcp, .webSocket, .kcp].map NetType.toInt64,
      List.forall_mem_map.mpr fun n _ => n.toInt64_mem, by decide⟩
  obtain ⟨s, hrun, hissued, -, hnodup, -⟩ := ids_unique netTypes [0, 2, 0, 1, 2] (by decide)
    fun i => Nat.lt_of_le_of_lt List.count_le_length (by decide)
  exact ⟨netTypes, rfl, s, hrun, hissued, hnodup⟩

end Generators

end FabricaNet.Internal
