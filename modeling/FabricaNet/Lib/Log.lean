import Mathlib.Data.List.Basic

/-!
# Logs

A log is the list of the events of a run, oldest first. `EachEvent Q log` says of every event what
was in the log before it. It is proved event by event (`eachEvent_concat`).
-/

namespace Lib

variable {ε : Type*} {Q Q' : ε → List ε → Prop} {log : List ε} {e : ε}

/-- Every event meets the condition on the part of the log before it. -/
def EachEvent (Q : ε → List ε → Prop) (log : List ε) : Prop :=
  ∀ pre e post, log = pre ++ e :: post → Q e pre

@[simp] theorem eachEvent_nil : EachEvent Q [] :=
  fun _ _ _ h => absurd h.symm (List.append_ne_nil_of_right_ne_nil _ (List.cons_ne_nil _ _))

theorem eachEvent_concat : EachEvent Q (log ++ [e]) ↔ EachEvent Q log ∧ Q e log := by
  constructor
  · intro h
    refine ⟨fun pre x post heq => ?_, h log e [] rfl⟩
    exact h pre x (post ++ [e]) (by rw [heq, List.append_assoc, List.cons_append])
  · rintro ⟨hlog, he⟩ pre x post heq
    -- either `x` is the new event or it was in the log
    rcases List.eq_nil_or_concat post with rfl | ⟨post, y, rfl⟩
    · obtain ⟨rfl, hx⟩ := List.append_inj' heq rfl
      cases hx
      exact he
    · rw [List.concat_eq_append, ← List.cons_append, ← List.append_assoc] at heq
      obtain ⟨rfl, -⟩ := List.append_inj' heq rfl
      exact hlog pre x post rfl

end Lib
