import FabricaNet.Go.SyncMap
import FabricaNet.Lib.Visit

/-!
# `Range` over a `sync.Map`

## A map that nothing changes

`Range` visits every entry once, in some order. The order is an argument: a statement about every
`RangeOrder` is a statement about every order.

## A map that changes

`Range` works on no snapshot: it visits no key twice, a key whose entry stays in place during the
call is visited with its value, and for a key that is stored or deleted during the call it may
reflect any mapping from any point of the call. A `Ranging` is the state of such a call. Whoever
changes the map during the call reports it with `stored` and `deleted`.

`Due` is the rule for using it: a mapping is due when its value is dealt with, or will be by the
visit that the call cannot end without.
-/

namespace Go

variable {K V : Type}

namespace SyncMap

/-- The entries. -/
def toList (m : SyncMap K V) : List (K × V) := (AList.entries m).map fun e => (e.1, e.2)

theorem mem_toList [DecidableEq K] {m : SyncMap K V} {k : K} {v : V} :
    (k, v) ∈ m.toList ↔ m.load k = some v := by
  have hmem : m.load k = some v ↔ ⟨k, v⟩ ∈ AList.entries m := AList.mem_lookup_iff
  rw [hmem, toList, List.mem_map]
  constructor
  · rintro ⟨⟨k', v'⟩, he, ⟨⟩⟩
    exact he
  · exact fun he => ⟨_, he, rfl⟩

theorem nodup_keys_toList (m : SyncMap K V) : (m.toList.map Prod.fst).Nodup := by
  have hkeys : m.toList.map Prod.fst = (AList.entries m).keys := by
    rw [toList, List.map_map]
    rfl
  rw [hkeys]
  exact AList.nodupKeys m

theorem length_store_of_none [DecidableEq K] {m : SyncMap K V} {k : K} (h : m.load k = none)
    (v : V) : (m.store k v).toList.length = m.toList.length + 1 := by
  have hk : k ∉ (show AList fun _ : K => V from m) := AList.lookup_eq_none.mp h
  have hentries := AList.entries_insert_of_notMem (b := v) hk
  rw [toList, List.length_map, toList, List.length_map]
  exact congrArg List.length hentries

theorem length_delete_of_some [DecidableEq K] {m : SyncMap K V} {k : K} {v : V}
    (h : m.load k = some v) : (m.delete k).toList.length + 1 = m.toList.length := by
  have hk : k ∈ (AList.entries m).keys := AList.lookup_isSome.mp (Option.isSome_of_mem h)
  obtain ⟨v', l, l', -, hentries, herase⟩ := List.exists_of_kerase hk
  have hdelete : AList.entries (m.delete k) = l ++ l' := herase
  rw [toList, List.length_map, toList, List.length_map, hdelete, hentries]
  simp only [List.length_append, List.length_cons]
  omega

theorem delete_of_none [DecidableEq K] {m : SyncMap K V} {k : K} (h : m.load k = none) :
    m.delete k = m := by
  have hk : k ∉ (AList.entries m).keys := AList.lookup_eq_none.mp h
  exact AList.ext (List.kerase_of_notMem_keys hk)

end SyncMap

/-- An order to visit the entries in, for every map. -/
structure RangeOrder (K V : Type) where
  visits : SyncMap K V → List (K × V)
  perm : ∀ m, (visits m).Perm m.toList

namespace RangeOrder

/-- The order in which the model keeps the entries. -/
def entries : RangeOrder K V where
  visits := SyncMap.toList
  perm := fun _ => .refl _

theorem mem_visits [DecidableEq K] {order : RangeOrder K V} {m : SyncMap K V} {k : K} {v : V} :
    (k, v) ∈ order.visits m ↔ m.load k = some v := by
  rw [(order.perm m).mem_iff]
  exact SyncMap.mem_toList

theorem nodup_keys (order : RangeOrder K V) (m : SyncMap K V) :
    ((order.visits m).map Prod.fst).Nodup :=
  ((order.perm m).map Prod.fst).nodup_iff.mpr m.nodup_keys_toList

end RangeOrder

/-- `Range` over a map that nothing changes. `t` is the state of the function it is passed. -/
def SyncMap.range {τ : Type} (m : SyncMap K V) (order : RangeOrder K V)
    (f : τ → K → V → τ × Bool) (t : τ) : τ :=
  (Lib.visit (fun t e => f t e.1 e.2) t (order.visits m)).1

/-- A call of `Range`, between the visits. -/
structure Ranging (K V : Type) where
  /-- the keys that have had their entry since the call and are not visited yet -/
  must : List K
  /-- every mapping since the call -/
  may : List (K × V)
  visited : List K
deriving DecidableEq, Repr

namespace Ranging

/-- The call. -/
def start (m : SyncMap K V) : Ranging K V :=
  { must := m.toList.map Prod.fst, may := m.toList, visited := [] }

/-- The map has a new entry. -/
def stored (r : Ranging K V) (k : K) (v : V) : Ranging K V := { r with may := (k, v) :: r.may }

/-- The map has lost an entry. -/
def deleted [DecidableEq K] (r : Ranging K V) (k : K) : Ranging K V :=
  { r with must := r.must.filter (· ≠ k) }

/-- A visit: the next call of the function passed to `Range`. -/
def visit [DecidableEq K] [DecidableEq V] (r : Ranging K V) (k : K) (v : V) :
    Option (Ranging K V) :=
  if (k, v) ∈ r.may ∧ k ∉ r.visited then
    some { r with must := r.must.filter (· ≠ k), visited := k :: r.visited }
  else none

/-- `Range` may return. -/
def finished (r : Ranging K V) : Bool := r.must.isEmpty

/-- The value is dealt with, or will be by a visit that is still to come. -/
def Due (r : Ranging K V) (Done : V → Prop) (k : K) (v : V) : Prop :=
  Done v ∨ (k ∈ r.must ∧ ∀ v', (k, v') ∈ r.may → v' = v)

variable {r r' : Ranging K V} {Done Done' : V → Prop} {k k' : K} {v v' : V}

/-- Every entry is due at the call. -/
theorem due_start [DecidableEq K] {m : SyncMap K V} (h : m.load k = some v) :
    (start m).Due Done k v := by
  refine Or.inr ⟨List.mem_map.mpr ⟨(k, v), SyncMap.mem_toList.mpr h, rfl⟩, fun v' hv' => ?_⟩
  exact Option.some.inj ((SyncMap.mem_toList.mp hv').symm.trans h)

theorem Due.mono (h : r.Due Done k v) (hD : ∀ v, Done v → Done' v) : r.Due Done' k v :=
  h.imp_left (hD v)

/-- A new entry under another key changes nothing. -/
theorem Due.stored (h : r.Due Done k v) (hk : k ≠ k') : (r.stored k' v').Due Done k v := by
  refine h.imp_right fun ⟨hmust, hmay⟩ => ⟨hmust, fun v₁ hv₁ => ?_⟩
  rcases List.mem_cons.mp hv₁ with heq | hv₁
  · exact absurd (congrArg Prod.fst heq) hk
  · exact hmay v₁ hv₁

theorem Due.deleted [DecidableEq K] (h : r.Due Done k v) (hk : k ≠ k') :
    (r.deleted k').Due Done k v :=
  h.imp_right fun ⟨hmust, hmay⟩ => ⟨List.mem_filter.mpr ⟨hmust, by simpa using hk⟩, hmay⟩

/-- A visit that deals with its value leaves every mapping due. -/
theorem Due.visit [DecidableEq K] [DecidableEq V] (h : r.Due Done k v)
    (hv : r.visit k' v' = some r') (hD : ∀ v, Done v → Done' v) (hdone : Done' v') :
    r'.Due Done' k v := by
  obtain ⟨⟨hmay', -⟩, ⟨⟩⟩ := Option.ite_none_right_eq_some.mp hv
  rcases h with hd | ⟨hmust, hmay⟩
  · exact Or.inl (hD v hd)
  · by_cases hk : k = k'
    · subst hk
      exact Or.inl (hmay v' hmay' ▸ hdone)
    · exact Or.inr ⟨List.mem_filter.mpr ⟨hmust, by simpa using hk⟩, hmay⟩

/-- **When `Range` returns, every mapping that is due is dealt with.** -/
theorem Due.done (h : r.Due Done k v) (hr : r.finished = true) : Done v := by
  rcases h with hd | ⟨hmust, -⟩
  · exact hd
  · rw [List.isEmpty_iff.mp hr] at hmust
    exact absurd hmust List.not_mem_nil

end Ranging

end Go
