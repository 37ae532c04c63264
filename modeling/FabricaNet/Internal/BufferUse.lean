import FabricaNet.Frame.Roundtrip
import FabricaNet.Internal.ReadLoop

/-!
# How many buffers a read loop holds

`readLoop` has one buffer at a time (`readLoop_oneAtATime`). `receiveLoop` has as many as it has
decoded packs, until it returns: it keeps to one buffer exactly when it does not come to a second
call of `Decode` (`receiveLoop_oneAtATime_iff`).
-/

namespace FabricaNet.Internal

open Go Xnet FabricaNet.Frame

variable {ω σ : Type}

/--
Each buffer is freed once, before the next call of `Decode`, and when the loop has returned there
is none left. `ended` says whether it has returned.
-/
structure OneAtATime (ended : Bool) (events : List ReadEvent) : Prop where
  freed_before_decode : ∀ pre post, events = pre ++ .decode :: post → freed pre = obtained pre
  only_obtained : ∀ pre, pre <+: events → freed pre <+: obtained pre
  at_most_one : ∀ pre, pre <+: events → (obtained pre).length ≤ (freed pre).length + 1
  none_left : ended = true → freed events = obtained events

/-! ## The worker -/

/-- One round: nothing, or a failed `Decode`, or a buffer that is obtained and freed. -/
inductive RoundEvents : List ReadEvent → Prop
  | nothing : RoundEvents []
  | failed : RoundEvents [.decode]
  | refused (buf : Slice) (pack : Pack) :
      RoundEvents [.decode, .obtain buf, .decrypt pack, .free buf]
  | passed (buf : Slice) (pack out : Pack) :
      RoundEvents [.decode, .obtain buf, .decrypt pack, .pass out, .free buf]

theorem read_roundEvents (decode : ω → σ → Decoded × World × σ) (r : Round ω) (s : σ) :
    RoundEvents (read decode r s).2.1 := by
  unfold read
  split
  · exact .nothing
  · split
    · exact .nothing
    · split
      · exact .failed
      · exact .failed
      · simp only
        split
        · exact .refused ..
        · exact .passed ..

/-- What holds of the buffers at any point of a round. -/
def AtMostOne (pre : List ReadEvent) : Prop :=
  freed pre <+: obtained pre ∧ (obtained pre).length ≤ (freed pre).length + 1

/-- As long as nothing has been freed. -/
theorem atMostOne_of_none_freed {es pre : List ReadEvent} (hfreed : freed es = [])
    (hobtained : (obtained es).length ≤ 1) (hpre : pre <+: es) : AtMostOne pre := by
  have hnone : freed pre = [] := List.prefix_nil.mp (hfreed ▸ hpre.filterMap _)
  have hone : (obtained pre).length ≤ (obtained es).length := (hpre.filterMap _).length_le
  unfold AtMostOne
  rw [hnone]
  exact ⟨List.nil_prefix, hone.trans hobtained⟩

/-- The buffer that has been obtained is freed in the end. -/
theorem atMostOne_of_last_freed (es : List ReadEvent) {pre : List ReadEvent} {buf : Slice}
    (hfreed : freed es = []) (hobtained : obtained es = [buf])
    (hpre : pre <+: es ++ [.free buf]) : AtMostOne pre := by
  rcases List.prefix_concat_iff.mp hpre with rfl | hpre
  · have hfreed' : freed (es ++ [.free buf]) = [buf] :=
      List.filterMap_append.trans (congrArg (· ++ [buf]) hfreed)
    have hobtained' : obtained (es ++ [.free buf]) = [buf] :=
      List.filterMap_append.trans (congrArg (· ++ []) hobtained)
    unfold AtMostOne
    rw [hfreed', hobtained']
    exact ⟨List.prefix_refl _, Nat.le_succ _⟩
  · exact atMostOne_of_none_freed hfreed (Nat.le_of_eq (congrArg List.length hobtained)) hpre

/-- A round that calls `Decode` once, and first. -/
theorem oneAtATime_of_decode {rest : List ReadEvent} (hrest : .decode ∉ rest)
    (hpre : ∀ pre, pre <+: .decode :: rest → AtMostOne pre)
    (hall : freed (.decode :: rest) = obtained (.decode :: rest)) :
    OneAtATime true (.decode :: rest) := by
  refine ⟨fun pre post heq => ?_, fun pre h => (hpre pre h).1, fun pre h => (hpre pre h).2,
    fun _ => hall⟩
  cases pre with
  | nil => rfl
  | cons x xs =>
    rw [List.cons_append] at heq
    exact absurd (by rw [(List.cons.inj heq).2]; simp) hrest

theorem RoundEvents.oneAtATime {es : List ReadEvent} (h : RoundEvents es) :
    OneAtATime true es := by
  cases h with
  | nothing =>
    have hpre : ∀ pre, pre <+: [] → AtMostOne pre :=
      fun _ => atMostOne_of_none_freed rfl (Nat.zero_le 1)
    exact ⟨fun pre post heq => absurd heq (by simp), fun pre h => (hpre pre h).1,
      fun pre h => (hpre pre h).2, fun _ => rfl⟩
  | failed =>
    exact oneAtATime_of_decode (by simp)
      (fun _ => atMostOne_of_none_freed rfl (Nat.zero_le 1)) rfl
  | refused buf pack =>
    exact oneAtATime_of_decode (by simp)
      (fun _ => atMostOne_of_last_freed [.decode, .obtain buf, .decrypt pack] rfl rfl) rfl
  | passed buf pack out =>
    exact oneAtATime_of_decode (by simp)
      (fun _ => atMostOne_of_last_freed [.decode, .obtain buf, .decrypt pack, .pass out] rfl rfl)
      rfl

/-- What follows a part that has freed everything can be looked at alone. -/
theorem OneAtATime.append {ended : Bool} {es es' : List ReadEvent} (h : OneAtATime true es)
    (h' : OneAtATime ended es') : OneAtATime ended (es ++ es') := by
  have hall := h.none_left rfl
  -- a prefix of the whole lies in the first part, or is the first part and a prefix of the second
  have hsplit : ∀ {pre}, pre <+: es ++ es' →
      pre <+: es ∨ ∃ pre', pre = es ++ pre' ∧ pre' <+: es' := by
    intro pre hpre
    rcases Nat.le_total pre.length es.length with hle | hle
    · exact Or.inl (List.prefix_of_prefix_length_le hpre (List.prefix_append _ _) hle)
    · obtain ⟨pre', rfl⟩ := List.prefix_of_prefix_length_le (List.prefix_append es es') hpre hle
      exact Or.inr ⟨pre', rfl, (List.prefix_append_right_inj es).mp hpre⟩
  refine ⟨fun pre post heq => ?_, fun pre hpre => ?_, fun pre hpre => ?_, fun hended => ?_⟩
  · rcases hsplit ⟨_, heq.symm⟩ with hes | ⟨pre', rfl, -⟩
    · obtain ⟨t, rfl⟩ := hes
      rw [List.append_assoc, List.append_cancel_left_eq] at heq
      cases t with
      | nil => simpa using hall
      | cons e t =>
        obtain ⟨rfl, -⟩ := List.cons.inj (heq.trans rfl)
        exact h.freed_before_decode pre t rfl
    · rw [List.append_assoc, List.append_cancel_left_eq] at heq
      rw [freed_append, obtained_append, hall, h'.freed_before_decode pre' post heq]
  · rcases hsplit hpre with hes | ⟨pre', rfl, hpre'⟩
    · exact h.only_obtained pre hes
    · rw [freed_append, obtained_append, hall]
      exact (List.prefix_append_right_inj _).mpr (h'.only_obtained pre' hpre')
  · rcases hsplit hpre with hes | ⟨pre', rfl, hpre'⟩
    · exact h.at_most_one pre hes
    · have := h'.at_most_one pre' hpre'
      rw [freed_append, obtained_append, hall, List.length_append, List.length_append]
      omega
  · rw [freed_append, obtained_append, hall, h'.none_left hended]

/-- **`readLoop` has one buffer at a time.** -/
theorem readLoop_oneAtATime (decode : ω → σ → Decoded × World × σ) (rs : List (Round ω)) (s : σ) :
    OneAtATime (readLoop decode rs s).1.isSome (readLoop decode rs s).2 := by
  have hnothing : ∀ ended, OneAtATime ended [] := by
    intro ended
    have h := RoundEvents.nothing.oneAtATime
    exact ⟨h.1, h.2, h.3, fun _ => rfl⟩
  induction rs generalizing s with
  | nil => exact hnothing _
  | cons r rs ih =>
    have hround := (read_roundEvents decode r s).oneAtATime
    unfold readLoop
    split
    · exact hnothing _
    · split
      · next events rest heq =>
        rw [heq] at hround
        exact hround.append (ih rest)
      · next heq =>
        rw [heq] at hround
        exact hround

/-! ## The dialog -/

/-- The round decodes a pack, decrypts it and sends it, so that the loop goes on. -/
def DialogRound.goesOn (decode : ω → σ → Decoded × World × σ) (r : DialogRound ω) (s : σ) : Bool :=
  !r.stopTriggered && !r.ctxDone &&
    match decode r.codec s with
    | (.ok buf, w, _) => (r.decrypt (w.heap.read buf)).isOk && r.send == .sent
    | _ => false

/-- When the first round goes on, the loop finds itself stopped when it comes to the second. -/
def StopsAfterOne (decode : ω → σ → Decoded × World × σ) : List (DialogRound ω) → σ → Prop
  | r :: r' :: _, s => r.goesOn decode s = true → r'.stopTriggered = true ∨ r'.ctxDone = true
  | _, _ => True

/-- What has not been freed yet may still be. -/
theorem OneAtATime.of_prefix {es es' : List ReadEvent} (h : OneAtATime true es')
    (hes : es <+: es') : OneAtATime false es := by
  refine ⟨fun pre post heq => ?_, fun pre hpre => h.only_obtained pre (hpre.trans hes),
    fun pre hpre => h.at_most_one pre (hpre.trans hes), nofun⟩
  obtain ⟨t, rfl⟩ := hes
  exact h.freed_before_decode pre (post ++ t) (by rw [heq, List.append_assoc, List.cons_append])

/-- A loop that is not stopped calls `Decode` first. -/
theorem receiveLoop_decodes (decode : ω → σ → Decoded × World × σ) {r : DialogRound ω}
    (hstop : r.stopTriggered = false) (hctx : r.ctxDone = false) (rs : List (DialogRound ω))
    (deferred : List Slice) (s : σ) :
    ∃ post, (receiveLoop decode (r :: rs) deferred s).2 = .decode :: post := by
  unfold receiveLoop
  simp only [hstop, hctx, Bool.false_eq_true, if_false]
  split
  · exact ⟨_, rfl⟩
  · exact ⟨_, rfl⟩
  · split
    · exact ⟨_, rfl⟩
    · split <;> exact ⟨_, rfl⟩

/-- The events of a loop from its first round on: a round that ends it, or one that goes on. -/
theorem receiveLoop_cons (decode : ω → σ → Decoded × World × σ) (r : DialogRound ω)
    (rs : List (DialogRound ω)) (s : σ) :
    (r.goesOn decode s = false ∧
      OneAtATime (receiveLoop decode (r :: rs) [] s).1.isSome
        (receiveLoop decode (r :: rs) [] s).2) ∨
    (r.goesOn decode s = true ∧ ∃ buf pack out rest, receiveLoop decode (r :: rs) [] s =
      ((receiveLoop decode rs [buf] rest).1,
        [.decode, .obtain buf, .decrypt pack, .pass out] ++
          (receiveLoop decode rs [buf] rest).2)) := by
  rw [receiveLoop, DialogRound.goesOn]
  cases hstop : r.stopTriggered with
  | true => exact Or.inl ⟨rfl, RoundEvents.nothing.oneAtATime⟩
  | false =>
    cases hctx : r.ctxDone with
    | true => exact Or.inl ⟨rfl, RoundEvents.nothing.oneAtATime⟩
    | false =>
      simp only [Bool.false_eq_true, if_false, Bool.not_false, Bool.true_and]
      rcases decode r.codec s with ⟨buf | e | _, w, rest⟩
      case err => exact Or.inl ⟨rfl, RoundEvents.failed.oneAtATime⟩
      case panic => exact Or.inl ⟨rfl, RoundEvents.failed.oneAtATime⟩
      case ok =>
        have hround := (RoundEvents.refused buf (w.heap.read buf)).oneAtATime
        simp only
        cases hdec : r.decrypt (w.heap.read buf) with
        | error e => exact Or.inl ⟨rfl, hround⟩
        | ok out =>
          cases hsend : r.send with
          | blocked => exact Or.inl ⟨rfl, hround.of_prefix ⟨[.free buf], rfl⟩⟩
          | panic => exact Or.inl ⟨rfl, hround⟩
          | sent => exact Or.inr ⟨rfl, buf, _, out, rest, rfl⟩

theorem receiveLoop_oneAtATime_iff (decode : ω → σ → Decoded × World × σ)
    (rs : List (DialogRound ω)) (s : σ) :
    OneAtATime (receiveLoop decode rs [] s).1.isSome (receiveLoop decode rs [] s).2 ↔
      StopsAfterOne decode rs s := by
  cases rs with
  | nil => exact ⟨fun _ => trivial, fun _ => RoundEvents.nothing.oneAtATime.of_prefix ⟨[], rfl⟩⟩
  | cons r rs =>
    rcases receiveLoop_cons decode r rs s with ⟨hends, hone⟩ | ⟨hgoes, buf, pack, out, rest, heq⟩
    · refine ⟨fun _ => ?_, fun _ => hone⟩
      cases rs with
      | nil => trivial
      | cons r' rs => exact fun hgoes => absurd (hends.symm.trans hgoes) (by decide)
    · rw [heq]
      have hround := (RoundEvents.passed buf pack out).oneAtATime
      cases rs with
      | nil => exact ⟨fun _ => trivial, fun _ => hround.of_prefix ⟨[.free buf], rfl⟩⟩
      | cons r' rs =>
        cases hstop : r'.stopTriggered with
        | true =>
          refine ⟨fun _ _ => Or.inl hstop, fun _ => ?_⟩
          simpa [receiveLoop, hstop, dialogReturn] using hround
        | false =>
          cases hctx : r'.ctxDone with
          | true =>
            refine ⟨fun _ _ => Or.inr hctx, fun _ => ?_⟩
            simpa [receiveLoop, hstop, hctx, dialogReturn] using hround
          | false =>
            -- the second `Decode` comes while the first buffer is still there
            obtain ⟨post, hpost⟩ := receiveLoop_decodes decode hstop hctx rs [buf] rest
            refine ⟨fun hone => ?_, fun hstops => ?_⟩
            · have hfreed := hone.freed_before_decode
                [.decode, .obtain buf, .decrypt pack, .pass out] post (by rw [← hpost])
              exact absurd hfreed (by simp [freed, obtained])
            · rcases hstops hgoes with h | h
              · rw [hstop] at h; cases h
              · rw [hctx] at h; cases h

/--
**The worker's loop holds one buffer at a time, whatever comes in. The dialog's loop does exactly
when it is stopped before it comes to a second `Decode`.**
-/
theorem one_buffer_at_a_time_iff (decode : ω → σ → Decoded × World × σ) (rs : List (Round ω))
    (ds : List (DialogRound ω)) (s : σ) :
    OneAtATime (readLoop decode rs s).1.isSome (readLoop decode rs s).2 ∧
      (OneAtATime (receiveLoop decode ds [] s).1.isSome (receiveLoop decode ds [] s).2 ↔
        StopsAfterOne decode ds s) :=
  ⟨readLoop_oneAtATime decode rs s, receiveLoop_oneAtATime_iff decode ds s⟩

/-- Two frames of one byte on a TCP connection: the dialog holds two buffers, the worker one. -/
theorem receiveLoop_holds_two :
    let stream : Bytes := [0, 0, 0, 1, 7, 0, 0, 0, 1, 8]
    let w := (Tcp.decode World.bare stream).2.1
    let ds : List (DialogRound World) :=
      [{ codec := World.bare, decrypt := .ok }, { codec := w, decrypt := .ok }]
    receiveLoop Tcp.decode ds [] stream =
        (none, [.decode, .obtain ⟨0, 1, 1⟩, .decrypt [7], .pass [7],
          .decode, .obtain ⟨1, 1, 1⟩, .decrypt [8], .pass [8]]) ∧
      ¬OneAtATime (receiveLoop Tcp.decode ds [] stream).1.isSome
        (receiveLoop Tcp.decode ds [] stream).2 := by
  refine ⟨rfl, fun h => ?_⟩
  have htwo := h.at_most_one _ (List.prefix_rfl)
  exact absurd htwo (by decide +kernel)

end FabricaNet.Internal
