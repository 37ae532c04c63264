import Mathlib.Data.Multiset.AddSub
import Mathlib.Data.Multiset.ZeroCons

/-!
# Exclusive ownership

Resources `ρ` lie at places `ι`; `own i` is the multiset of the resources at place `i`. Ownership
is exclusive when no resource lies at two places, or at one place twice. Resources outside `live`
do not exist yet.

A system whose steps are `Transfer`s keeps ownership exclusive (`Exclusive.transfer`). For each
step it is enough to say which resource goes from which place to which.

A `Shift` is a transfer that drops nothing. When every live resource lies somewhere, shifts keep it
so (`Placed.shift`).

When the places of a smaller system are some of the places of a larger one, ownership in the larger
is ownership in the smaller (`Exclusive.comap`), and a transfer in the smaller is one in the larger
(`Transfer.lift`).
-/

namespace Lib

variable {ι ρ : Type*}

/-- Every resource lies at one place at most, at most once, and is live. -/
structure Exclusive (live : ρ → Prop) (own : ι → Multiset ρ) : Prop where
  nodup : ∀ i, (own i).Nodup
  unique : ∀ {i j a}, a ∈ own i → a ∈ own j → i = j
  live_of_mem : ∀ {i a}, a ∈ own i → live a

/-- The ways in which a step changes who owns what: at most one resource changes its place. -/
inductive Transfer (live live' : ρ → Prop) (own own' : ι → Multiset ρ) : Prop where
  | stay (frame : ∀ k, own' k = own k)
  | move (i j : ι) (a : ρ) (ne : i ≠ j) (take : own i = a ::ₘ own' i) (put : own' j = a ::ₘ own j)
      (frame : ∀ k, k ≠ i → k ≠ j → own' k = own k)
  | acquire (j : ι) (a : ρ) (fresh : ¬live a) (now : live' a) (put : own' j = a ::ₘ own j)
      (frame : ∀ k, k ≠ j → own' k = own k)
  | drop (i : ι) (a : ρ) (take : own i = a ::ₘ own' i) (frame : ∀ k, k ≠ i → own' k = own k)

namespace Exclusive

variable {live live' : ρ → Prop} {own own' : ι → Multiset ρ}

theorem stay (h : Exclusive live own) (hlive : ∀ a, live a → live' a)
    (frame : ∀ k, own' k = own k) : Exclusive live' own' := by
  obtain rfl : own' = own := funext frame
  exact ⟨h.nodup, h.unique, fun ha => hlive _ (h.live_of_mem ha)⟩

theorem drop (h : Exclusive live own) {i : ι} {a : ρ} (take : own i = a ::ₘ own' i)
    (frame : ∀ k, k ≠ i → own' k = own k) : Exclusive live own' := by
  have hle : ∀ k, own' k ≤ own k := by
    intro k
    by_cases hk : k = i
    · subst hk
      rw [take]
      exact Multiset.le_cons_self _ a
    · rw [frame k hk]
  have hmem : ∀ {k b}, b ∈ own' k → b ∈ own k := fun hb => Multiset.mem_of_le (hle _) hb
  exact ⟨fun k => Multiset.nodup_of_le (hle k) (h.nodup k),
    fun hi hj => h.unique (hmem hi) (hmem hj), fun hb => h.live_of_mem (hmem hb)⟩

/-- What has been taken away lies nowhere any more. -/
theorem notMem_of_take (h : Exclusive live own) {i : ι} {a : ρ} (take : own i = a ::ₘ own' i)
    (frame : ∀ k, k ≠ i → own' k = own k) (k : ι) : a ∉ own' k := by
  intro ha
  have hai : a ∈ own i := take ▸ Multiset.mem_cons_self a _
  by_cases hk : k = i
  · subst hk
    have hnd := h.nodup k
    rw [take, Multiset.nodup_cons] at hnd
    exact hnd.1 ha
  · rw [frame k hk] at ha
    exact hk (h.unique ha hai)

theorem add (h : Exclusive live own) (hlive : ∀ a, live a → live' a) {j : ι} {a : ρ}
    (fresh : ∀ k, a ∉ own k) (now : live' a) (put : own' j = a ::ₘ own j)
    (frame : ∀ k, k ≠ j → own' k = own k) : Exclusive live' own' := by
  have hmem : ∀ {k b}, b ∈ own' k → b ∈ own k ∨ k = j ∧ b = a := by
    intro k b hb
    by_cases hk : k = j
    · subst hk
      rw [put, Multiset.mem_cons] at hb
      exact hb.symm.imp_right fun hba => ⟨rfl, hba⟩
    · rw [frame k hk] at hb
      exact Or.inl hb
  refine ⟨fun k => ?_, fun {i k b} hi hk => ?_, fun {i b} hb => ?_⟩
  · by_cases hk : k = j
    · subst hk
      rw [put, Multiset.nodup_cons]
      exact ⟨fresh k, h.nodup k⟩
    · rw [frame k hk]
      exact h.nodup k
  · rcases hmem hi with hi | ⟨rfl, rfl⟩ <;> rcases hmem hk with hk | ⟨rfl, hba⟩
    · exact h.unique hi hk
    · exact absurd (hba ▸ hi) (fresh i)
    · exact absurd hk (fresh k)
    · rfl
  · rcases hmem hb with hb | ⟨-, rfl⟩
    · exact hlive b (h.live_of_mem hb)
    · exact now

/-- **Transfers keep ownership exclusive.** -/
theorem transfer (h : Exclusive live own) (hlive : ∀ a, live a → live' a)
    (ht : Transfer live live' own own') : Exclusive live' own' := by
  classical
  cases ht with
  | stay frame => exact h.stay hlive frame
  | acquire j a fresh now put frame =>
    exact h.add hlive (fun k ha => fresh (h.live_of_mem ha)) now put frame
  | drop i a take frame =>
    have h' := h.drop take frame
    exact h'.stay hlive fun _ => rfl
  | move i j a ne take put frame =>
    -- a move is a drop at `i` followed by an addition at `j`
    have htake : own i = a ::ₘ Function.update own i (own' i) i := by
      rw [Function.update_self]; exact take
    have hframe : ∀ k, k ≠ i → Function.update own i (own' i) k = own k :=
      fun k hk => Function.update_of_ne hk ..
    have hlivea : live a := h.live_of_mem (take ▸ Multiset.mem_cons_self a _)
    refine (h.drop htake hframe).add (j := j) (a := a) hlive (h.notMem_of_take htake hframe)
      (hlive a hlivea) ?_ fun k hk => ?_
    · rw [hframe j (Ne.symm ne)]; exact put
    · by_cases hki : k = i
      · subst hki; rw [Function.update_self]
      · rw [hframe k hki]; exact frame k hki hk

end Exclusive

/-! ## Nothing is lost -/

section Shift

variable {live live' : ρ → Prop} {own own' : ι → Multiset ρ}

/-- The live resources are those that lie at a place, and each lies at one place, once. -/
structure Placed (live : ρ → Prop) (own : ι → Multiset ρ) : Prop extends Exclusive live own where
  exists_mem : ∀ {a}, live a → ∃ i, a ∈ own i

theorem Placed.existsUnique (h : Placed live own) {a : ρ} (ha : live a) : ∃! i, a ∈ own i := by
  obtain ⟨i, hi⟩ := h.exists_mem ha
  exact ⟨i, hi, fun j hj => h.unique hj hi⟩

/-- The ways in which a step changes who owns what when nothing is dropped. -/
inductive Shift (live live' : ρ → Prop) (own own' : ι → Multiset ρ) : Prop where
  | stay (same : ∀ a, live' a ↔ live a) (frame : ∀ k, own' k = own k)
  | move (same : ∀ a, live' a ↔ live a) (i j : ι) (a : ρ) (ne : i ≠ j)
      (take : own i = a ::ₘ own' i) (put : own' j = a ::ₘ own j)
      (frame : ∀ k, k ≠ i → k ≠ j → own' k = own k)
  | acquire (j : ι) (a : ρ) (fresh : ¬live a) (grow : ∀ b, live' b ↔ b = a ∨ live b)
      (put : own' j = a ::ₘ own j) (frame : ∀ k, k ≠ j → own' k = own k)

theorem Shift.live_imp (h : Shift live live' own own') (a : ρ) (ha : live a) : live' a := by
  cases h with
  | stay same _ => exact (same a).mpr ha
  | move same _ _ _ _ _ _ _ => exact (same a).mpr ha
  | acquire _ _ _ grow _ _ => exact (grow a).mpr (.inr ha)

theorem Shift.transfer (h : Shift live live' own own') : Transfer live live' own own' := by
  cases h with
  | stay _ frame => exact .stay frame
  | move _ i j a ne take put frame => exact .move i j a ne take put frame
  | acquire j a fresh grow put frame =>
    exact .acquire j a fresh ((grow a).mpr (.inl rfl)) put frame

/-- What lies somewhere still does after a shift. -/
theorem Shift.exists_mem (h : Shift live live' own own') {b : ρ} {k : ι} (hb : b ∈ own k) :
    ∃ k', b ∈ own' k' := by
  cases h with
  | stay _ frame => exact ⟨k, frame k ▸ hb⟩
  | acquire j a _ _ put frame =>
    by_cases hk : k = j
    · subst hk
      exact ⟨k, put ▸ Multiset.mem_cons_of_mem hb⟩
    · exact ⟨k, frame k hk ▸ hb⟩
  | move _ i j a _ take put frame =>
    by_cases hi : k = i
    · subst hi
      rw [take, Multiset.mem_cons] at hb
      rcases hb with rfl | hb
      · exact ⟨j, put ▸ Multiset.mem_cons_self ..⟩
      · exact ⟨k, hb⟩
    · by_cases hj : k = j
      · subst hj
        exact ⟨k, put ▸ Multiset.mem_cons_of_mem hb⟩
      · exact ⟨k, frame k hi hj ▸ hb⟩

/-- **Shifts keep every live resource at one place.** -/
theorem Placed.shift (h : Placed live own) (hs : Shift live live' own own') :
    Placed live' own' where
  toExclusive := h.transfer hs.live_imp hs.transfer
  exists_mem {b} hb := by
    have hold : live b → ∃ k, b ∈ own' k := fun hb =>
      let ⟨_, hk⟩ := h.exists_mem hb
      hs.exists_mem hk
    cases hs with
    | stay same _ => exact hold ((same b).mp hb)
    | move same _ _ _ _ _ _ _ => exact hold ((same b).mp hb)
    | acquire j a _ grow put _ =>
      rcases (grow b).mp hb with rfl | hb
      · exact ⟨j, put ▸ Multiset.mem_cons_self ..⟩
      · exact hold hb

end Shift

/-! ## A part of the places -/

section Part

variable {κ : Type*} {live live' : ρ → Prop} {own own' : ι → Multiset ρ}
  {all all' : κ → Multiset ρ} {f : ι → κ}

theorem Exclusive.comap (h : Exclusive live all) (hf : Function.Injective f)
    (hown : ∀ i, all (f i) = own i) : Exclusive live own where
  nodup i := hown i ▸ h.nodup (f i)
  unique {i j a} hi hj := by
    rw [← hown] at hi hj
    exact hf (h.unique hi hj)
  live_of_mem {i a} ha := by
    rw [← hown] at ha
    exact h.live_of_mem ha

/-- **A transfer between some of the places is a transfer.** -/
theorem Transfer.lift (h : Transfer live live' own own') (hf : Function.Injective f)
    (hown : ∀ i, all (f i) = own i) (hown' : ∀ i, all' (f i) = own' i)
    (hrest : ∀ k, (∀ i, k ≠ f i) → all' k = all k) : Transfer live live' all all' := by
  -- a place is one of the part, where the transfer says what happens, or it is left alone
  have hframe : ∀ P : κ → Prop, (∀ i, P (f i) → own' i = own i) →
      ∀ k, P k → all' k = all k := by
    intro P hpart k hk
    by_cases hex : ∃ i, k = f i
    · obtain ⟨i, rfl⟩ := hex
      rw [hown, hown', hpart i hk]
    · exact hrest k fun i hi => hex ⟨i, hi⟩
  cases h with
  | stay frame => exact .stay fun k => hframe (fun _ => True) (fun i _ => frame i) k trivial
  | move i j a ne take put frame =>
    refine .move (f i) (f j) a (fun he => ne (hf he)) ?_ ?_ fun k hi hj => ?_
    · rw [hown, hown', take]
    · rw [hown, hown', put]
    · refine hframe (fun k => k ≠ f i ∧ k ≠ f j) (fun m hm => ?_) k ⟨hi, hj⟩
      exact frame m (fun he => hm.1 (by rw [he])) fun he => hm.2 (by rw [he])
  | acquire j a fresh now put frame =>
    refine .acquire (f j) a fresh now ?_ fun k hj => ?_
    · rw [hown, hown', put]
    · exact hframe (· ≠ f j) (fun m hm => frame m fun he => hm (by rw [he])) k hj
  | drop i a take frame =>
    refine .drop (f i) a ?_ fun k hi => ?_
    · rw [hown, hown', take]
    · exact hframe (· ≠ f i) (fun m hm => frame m fun he => hm (by rw [he])) k hi

end Part

end Lib
