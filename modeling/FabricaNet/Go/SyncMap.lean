import Mathlib.Data.List.AList

/-!
# `sync.Map`

A `sync.Map` is taken as a linearizable map: each operation is one atomic step on a finite map.
Every lemma reads the map through `load`.
-/

namespace Go

/-- A finite map from `K` to `V`, changed by atomic operations. -/
def SyncMap (K V : Type) : Type := AList fun _ : K => V

namespace SyncMap

variable {K V : Type} [DecidableEq K]

/-- The zero value: a map without entries. -/
def empty : SyncMap K V := (∅ : AList fun _ : K => V)

/-- `Load`. -/
def load (m : SyncMap K V) (k : K) : Option V := AList.lookup k m

/-- `Store`. -/
def store (m : SyncMap K V) (k : K) (v : V) : SyncMap K V := AList.insert k v m

/-- `Delete`. A key without an entry is not an error. -/
def delete (m : SyncMap K V) (k : K) : SyncMap K V := AList.erase k m

/-- `LoadOrStore`: the existing value, if there is one, and the map after the call. -/
def loadOrStore (m : SyncMap K V) (k : K) (v : V) : Option V × SyncMap K V :=
  match m.load k with
  | some old => (some old, m)
  | none => (none, m.store k v)

@[simp] theorem load_empty (k : K) : (empty : SyncMap K V).load k = none := AList.lookup_empty k

theorem load_store (m : SyncMap K V) (k k' : K) (v : V) :
    (m.store k v).load k' = if k' = k then some v else m.load k' := by
  unfold load store
  split
  · next h => rw [h]; exact AList.lookup_insert m
  · next h => exact AList.lookup_insert_ne h

theorem load_delete (m : SyncMap K V) (k k' : K) :
    (m.delete k).load k' = if k' = k then none else m.load k' := by
  unfold load delete
  split
  · next h => rw [h]; exact AList.lookup_erase k m
  · next h => exact AList.lookup_erase_ne h

theorem loadOrStore_fst (m : SyncMap K V) (k : K) (v : V) :
    (m.loadOrStore k v).1 = m.load k := by
  unfold loadOrStore
  cases m.load k <;> rfl

theorem load_loadOrStore (m : SyncMap K V) (k k' : K) (v : V) :
    (m.loadOrStore k v).2.load k' = if k' = k then some ((m.load k).getD v) else m.load k' := by
  unfold loadOrStore
  cases h : m.load k with
  | none => exact load_store m k k' v
  | some old =>
    show m.load k' = _
    split
    · next hk => rw [hk, h]; rfl
    · rfl

end SyncMap

end Go
