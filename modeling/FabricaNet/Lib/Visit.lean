import FabricaNet.Lib.Log

/-!
# Calling a function on the elements of a list until it answers `false`

The function is a closure: it has a state of type `σ`, which every call may change, and it answers
whether to go on. `visit` is the state after the calls and the last answer.

`logging f` is a function whose answers are `f` of the calls made so far. Its state is the log of
the calls, so that every statement about which calls are made is a statement about
`visit (logging f) []`, and `Called` is that statement.
-/

namespace Lib

variable {σ α : Type*}

/-- Calls `f` from left to right until it answers `false`. -/
def visit (f : σ → α → σ × Bool) : σ → List α → σ × Bool
  | s, [] => (s, true)
  | s, a :: as => if (f s a).2 then visit f (f s a).1 as else ((f s a).1, false)

variable {f : σ → α → σ × Bool} {s : σ}

@[simp] theorem visit_nil : visit f s [] = (s, true) := rfl

theorem visit_cons (a : α) (as : List α) :
    visit f s (a :: as) = if (f s a).2 then visit f (f s a).1 as else ((f s a).1, false) := rfl

/-- A second list is visited only when every call on the first was answered with `true`. -/
theorem visit_append (as bs : List α) :
    visit f s (as ++ bs) =
      if (visit f s as).2 then visit f (visit f s as).1 bs else ((visit f s as).1, false) := by
  induction as generalizing s with
  | nil => simp
  | cons a as ih =>
    rw [List.cons_append, visit_cons, visit_cons]
    split
    · exact ih
    · simp

/-! ## Which calls are made -/

/-- The function with the answers `answer`, which logs its calls. -/
def logging (answer : List (α × Bool) → α → Bool) (calls : List (α × Bool)) (a : α) :
    List (α × Bool) × Bool :=
  (calls ++ [(a, answer calls a)], answer calls a)

/--
The calls are made on the elements from left to right, each with its answer. They stop after the
first answer `false`, and only there.
-/
structure Called (answer : List (α × Bool) → α → Bool) (as : List α) (calls : List (α × Bool)) :
    Prop where
  in_order : calls.map Prod.fst <+: as
  answers : EachEvent (fun c pre => c.2 = answer pre c.1) calls
  stops : EachEvent (fun _ pre => ∀ c ∈ pre, c.2 = true) calls
  complete : (∀ c ∈ calls, c.2 = true) → calls.map Prod.fst = as

variable {answer : List (α × Bool) → α → Bool}

/-- The calls that are still to come continue a log in which every answer is `true`. -/
theorem called_of_visit {done : List α} {calls : List (α × Bool)}
    (hdone : calls.map Prod.fst = done)
    (hanswers : EachEvent (fun c pre => c.2 = answer pre c.1) calls)
    (hstops : EachEvent (fun _ pre => ∀ c ∈ pre, c.2 = true) calls)
    (htrue : ∀ c ∈ calls, c.2 = true) (as : List α) :
    Called answer (done ++ as) (visit (logging answer) calls as).1 := by
  induction as generalizing done calls with
  | nil =>
    rw [visit_nil, List.append_nil]
    exact ⟨hdone ▸ List.prefix_rfl, hanswers, hstops, fun _ => hdone⟩
  | cons a as ih =>
    have hdone' : (calls ++ [(a, answer calls a)]).map Prod.fst = done ++ [a] := by
      rw [List.map_append, hdone]
      rfl
    have hanswers' : EachEvent (fun c pre => c.2 = answer pre c.1)
        (calls ++ [(a, answer calls a)]) := eachEvent_concat.mpr ⟨hanswers, rfl⟩
    have hstops' : EachEvent (fun _ pre => ∀ c ∈ pre, c.2 = true)
        (calls ++ [(a, answer calls a)]) := eachEvent_concat.mpr ⟨hstops, htrue⟩
    have hsplit : done ++ a :: as = (done ++ [a]) ++ as := by simp
    rw [visit_cons, hsplit]
    split
    · next hgo =>
      refine ih hdone' hanswers' hstops' fun c hc => ?_
      rcases List.mem_append.mp hc with hc | hc
      · exact htrue c hc
      · rw [List.mem_singleton.mp hc]
        exact hgo
    · next hstop =>
      -- the last call was answered with `false`, so the log is not all `true`
      refine ⟨?_, hanswers', hstops', fun hall => ?_⟩
      · show (calls ++ [(a, answer calls a)]).map Prod.fst <+: _
        rw [hdone']
        exact List.prefix_append _ _
      · exact absurd (hall (a, answer calls a) (by simp [logging])) hstop

/-- **What is called when `logging answer` visits a list.** -/
theorem called_visit (answer : List (α × Bool) → α → Bool) (as : List α) :
    Called answer as (visit (logging answer) [] as).1 := by
  have h : Called answer ([] ++ as) (visit (logging answer) [] as).1 :=
    called_of_visit rfl eachEvent_nil eachEvent_nil (by simp) as
  exact h

end Lib
