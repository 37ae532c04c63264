import FabricaNet.Go.Range

/-!
# Stopping what a `sync.Map` holds

`Range` over the map, with one call of `stop` for each entry that is visited, and then `wg.Wait`.
The calls of `stop` go on beside `Range`, since `xsync.Timeout` may give up on them, and the map may
change all the while: whoever changes it reports it with `stored` and `deleted`.

A value is `Accounted` for when it is stopped, or will be before `wg.Wait` returns. Every entry is
at the call (`accounted_start`), and no step changes that.
-/

namespace Go

variable {K V : Type}

/-- Where such a call is. `calls` are the values whose `stop` the wait group counts. -/
inductive StopAll (K V : Type) where
  | range (r : Ranging K V) (calls : List V)
  /-- `wg.Wait()` -/
  | wait (calls : List V)
  | waited
deriving DecidableEq, Repr

namespace StopAll

/-- The call of `Range`. -/
def start (m : SyncMap K V) : StopAll K V := .range (Ranging.start m) []

/-- The map has a new entry. -/
def stored (k : K) (v : V) : StopAll K V → StopAll K V
  | .range r calls => .range (r.stored k v) calls
  | p => p

/-- The map has lost an entry. -/
def deleted [DecidableEq K] (k : K) : StopAll K V → StopAll K V
  | .range r calls => .range (r.deleted k) calls
  | p => p

/-- `Range` visits an entry, and a call of `stop` begins. -/
def visit [DecidableEq K] [DecidableEq V] (k : K) (v : V) : StopAll K V → Option (StopAll K V)
  | .range r calls => (r.visit k v).map fun r' => .range r' (v :: calls)
  | _ => none

/-- A call of `stop` has returned: `wg.Done()`. -/
def done [DecidableEq V] (v : V) : StopAll K V → Option (StopAll K V)
  | .range r calls => if v ∈ calls then some (.range r (calls.erase v)) else none
  | .wait calls => if v ∈ calls then some (.wait (calls.erase v)) else none
  | .waited => none

/-- `Range` returns, or `wg.Wait` does. -/
def next [DecidableEq V] : StopAll K V → Option (StopAll K V)
  | .range r calls => if r.finished then some (.wait calls) else none
  | .wait calls => if calls = [] then some .waited else none
  | .waited => none

/-- The value is stopped, or its call of `stop` has begun. -/
def Handled (Stopped : V → Prop) (calls : List V) (v : V) : Prop := Stopped v ∨ v ∈ calls

/-- How far the call has dealt with an entry. -/
def Accounted (Stopped : V → Prop) (k : K) (v : V) : StopAll K V → Prop
  | .range r calls => r.Due (Handled Stopped calls) k v
  | .wait calls => Handled Stopped calls v
  | .waited => Stopped v

variable {Stopped Stopped' : V → Prop} {k k' : K} {v v' : V} {p p' : StopAll K V}

theorem accounted_start [DecidableEq K] {m : SyncMap K V} (h : m.load k = some v) :
    (start m).Accounted Stopped k v :=
  Ranging.due_start h

theorem Accounted.mono (h : p.Accounted Stopped k v) (hS : ∀ v, Stopped v → Stopped' v) :
    p.Accounted Stopped' k v := by
  have hhandled : ∀ calls v, Handled Stopped calls v → Handled Stopped' calls v :=
    fun _ v hv => hv.imp_left (hS v)
  cases p with
  | range r calls => exact Ranging.Due.mono (r := r) h (hhandled calls)
  | wait calls => exact hhandled calls v h
  | waited => exact hS v h

theorem Accounted.stored (h : p.Accounted Stopped k v) (hk : k ≠ k') :
    (p.stored k' v').Accounted Stopped k v := by
  cases p with
  | range r calls => exact Ranging.Due.stored (r := r) h hk
  | wait calls | waited => exact h

theorem Accounted.deleted [DecidableEq K] (h : p.Accounted Stopped k v) (hk : k ≠ k') :
    (p.deleted k').Accounted Stopped k v := by
  cases p with
  | range r calls => exact Ranging.Due.deleted (r := r) h hk
  | wait calls | waited => exact h

theorem Accounted.visit [DecidableEq K] [DecidableEq V] (h : p.Accounted Stopped k v)
    (hp : p.visit k' v' = some p') : p'.Accounted Stopped k v := by
  cases p with
  | range r calls =>
    obtain ⟨r', hr, ⟨⟩⟩ := Option.map_eq_some_iff.mp hp
    -- the wait group counts the value that is visited from now on
    have hmore : ∀ v, Handled Stopped calls v → Handled Stopped (v' :: calls) v :=
      fun v hv => hv.imp_right (List.mem_cons_of_mem v')
    exact Ranging.Due.visit (r := r) h hr hmore (Or.inr List.mem_cons_self)
  | wait calls | waited => cases hp

/-- A value that the wait group no longer counts is stopped. -/
theorem Handled.erase [DecidableEq V] {calls : List V} (h : Handled Stopped calls v)
    (hv' : Stopped v') : Handled Stopped (calls.erase v') v := by
  rcases h with hs | hc
  · exact Or.inl hs
  · by_cases heq : v = v'
    · exact Or.inl (heq ▸ hv')
    · exact Or.inr ((List.mem_erase_of_ne heq).mpr hc)

theorem Accounted.done [DecidableEq V] (h : p.Accounted Stopped k v) (hp : p.done v' = some p')
    (hv' : Stopped v') : p'.Accounted Stopped k v := by
  cases p with
  | range r calls =>
    obtain ⟨-, ⟨⟩⟩ := Option.ite_none_right_eq_some.mp hp
    exact Ranging.Due.mono (r := r) h fun _ hv => hv.erase hv'
  | wait calls =>
    obtain ⟨-, ⟨⟩⟩ := Option.ite_none_right_eq_some.mp hp
    exact Handled.erase h hv'
  | waited => cases hp

theorem Accounted.next [DecidableEq V] (h : p.Accounted Stopped k v) (hp : p.next = some p') :
    p'.Accounted Stopped k v := by
  cases p with
  | range r calls =>
    obtain ⟨hfin, ⟨⟩⟩ := Option.ite_none_right_eq_some.mp hp
    exact Ranging.Due.done (r := r) h hfin
  | wait calls =>
    obtain ⟨hcalls, ⟨⟩⟩ := Option.ite_none_right_eq_some.mp hp
    rcases h with hs | hc
    · exact hs
    · rw [hcalls] at hc
      exact absurd hc List.not_mem_nil
  | waited => cases hp

end StopAll

end Go
