import Mathlib.Logic.Function.Basic

/-!
# Byte slices, the heap and `sync.Pool`

A `[]byte` here starts at the base of its backing array, so the address of the array is the address
of the slice. The heap gives every array that `make` returns an address of its own.

`sync.Pool.Get` may return any pooled item, and may ignore the pool. The choice is an oracle `pick`
inside the pool: a statement about every pool is a statement about every choice.
-/

namespace Go

/-- The contents of a byte array. -/
abbrev Bytes := List UInt8

/-- A `[]byte`. -/
structure Slice where
  ptr : Nat
  len : Nat
  cap : Nat
deriving DecidableEq, Repr

/-- The byte arrays of the program, by address. Addresses from `next` on are unused. -/
structure Heap where
  next : Nat
  mem : Nat → Bytes

namespace Heap

/-- `make([]byte, n)`. -/
def make (h : Heap) (n : Nat) : Slice × Heap :=
  (⟨h.next, n, n⟩,
    { next := h.next + 1, mem := Function.update h.mem h.next (List.replicate n 0) })

/-- `clear(buf[:cap(buf)])`. -/
def clear (h : Heap) (buf : Slice) : Heap :=
  { h with mem := Function.update h.mem buf.ptr (List.replicate buf.cap 0) }

/-- The bytes of a slice. -/
def read (h : Heap) (buf : Slice) : Bytes := (h.mem buf.ptr).take buf.len

/-- `copy(buf, bytes)` for `bytes` that fit. -/
def write (h : Heap) (buf : Slice) (bytes : Bytes) : Heap :=
  { h with mem := Function.update h.mem buf.ptr (bytes ++ (h.mem buf.ptr).drop bytes.length) }

/-- `copy(buf[off:cap(buf)], bytes)` for `bytes` that fit. -/
def writeAt (h : Heap) (buf : Slice) (off : Nat) (bytes : Bytes) : Heap :=
  let block := h.mem buf.ptr
  { h with mem := Function.update h.mem buf.ptr
            (block.take off ++ bytes ++ block.drop (off + bytes.length)) }

/-- What is written to the whole length of a slice is what is read from it. -/
theorem read_write {h : Heap} {buf : Slice} {bytes : Bytes} (hlen : bytes.length = buf.len) :
    (h.write buf bytes).read buf = bytes := by
  simp only [read, write, Function.update_self, ← hlen]
  exact List.take_left

end Heap

/-- `sync.Pool`. The `n`-th `Get` looks at the item at position `pick n`, if there is one. -/
structure SyncPool (α : Type) where
  items : List α
  pick : Nat → Option Nat
  gets : Nat

namespace SyncPool

variable {α : Type}

/-- A pool that nothing has been put in. -/
def new (pick : Nat → Option Nat) : SyncPool α := { items := [], pick := pick, gets := 0 }

/-- `Get`: an item, or `none` where `New` has to make one. -/
def get (p : SyncPool α) : Option α × SyncPool α :=
  match (p.pick p.gets).bind fun i => p.items[i]?.map fun x => (i, x) with
  | none => (none, { p with gets := p.gets + 1 })
  | some (i, x) => (some x, { p with items := p.items.eraseIdx i, gets := p.gets + 1 })

/-- `Put`. -/
def put (p : SyncPool α) (x : α) : SyncPool α := { p with items := x :: p.items }

/-- `Get` returns a pooled item and removes it, or leaves the items as they are. -/
theorem get_cases (p : SyncPool α) :
    (∃ i x, p.items[i]? = some x ∧ p.get.1 = some x ∧ p.get.2.items = p.items.eraseIdx i) ∨
      (p.get.1 = none ∧ p.get.2.items = p.items) := by
  unfold get
  split
  · exact Or.inr ⟨rfl, rfl⟩
  · next i x h =>
    obtain ⟨j, -, hj⟩ := Option.bind_eq_some_iff.mp h
    obtain ⟨y, hy, he⟩ := Option.map_eq_some_iff.mp hj
    cases he
    exact Or.inl ⟨i, x, hy, rfl, rfl⟩

end SyncPool

end Go
