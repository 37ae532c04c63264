import Mathlib.Data.List.Infix

/-!
# Codes that can be read off a stream

A `StreamCode` writes a value as a list of symbols and reads one value off the front of a stream.
The law says that a legal value is read back whatever follows it, so a stream of several values
falls apart in one way only:

* `parseAll_encodeAll` — as many reads as there were values give back the values and leave the rest
* `isPrefix_of_encodeAll_isPrefix` — only a prefix of the values gives a prefix of the stream
* `exists_longestPrefix` — when only codes are read as values, every stream has a longest prefix of
  codes, and it ends where nothing can be read
* `exists_take_encodeAll` — a stream that is cut somewhere begins with the codes that fit
-/

namespace Lib

structure StreamCode (α β : Type*) where
  encode : α → List β
  parse : List β → Option (α × List β)
  Legal : α → Prop
  parse_encode : ∀ a rest, Legal a → parse (encode a ++ rest) = some (a, rest)
  parse_nil : parse [] = none

namespace StreamCode

variable {α β : Type*} (c : StreamCode α β)

def encodeAll (as : List α) : List β := as.flatMap c.encode

/-- Reads `n` values off the front of the stream. -/
def parseAll : Nat → List β → Option (List α × List β)
  | 0, s => some ([], s)
  | n + 1, s =>
    match c.parse s with
    | none => none
    | some (a, s') => (parseAll n s').map fun r => (a :: r.1, r.2)

theorem encodeAll_cons (a : α) (as : List α) :
    c.encodeAll (a :: as) = c.encode a ++ c.encodeAll as := List.flatMap_cons

theorem encodeAll_append (as bs : List α) :
    c.encodeAll (as ++ bs) = c.encodeAll as ++ c.encodeAll bs := List.flatMap_append

theorem encodeAll_singleton (a : α) : c.encodeAll [a] = c.encode a :=
  List.flatMap_singleton _ a

variable {c}

/-- **What is written is what is read, and what follows is left.** -/
theorem parseAll_encodeAll {as : List α} (h : ∀ a ∈ as, c.Legal a) (rest : List β) :
    c.parseAll as.length (c.encodeAll as ++ rest) = some (as, rest) := by
  induction as with
  | nil => rfl
  | cons a as ih =>
    have ha := c.parse_encode a (c.encodeAll as ++ rest) (h a List.mem_cons_self)
    simp only [encodeAll_cons, List.append_assoc, List.length_cons, parseAll, ha,
      ih fun b hb => h b (List.mem_cons_of_mem a hb), Option.map_some]

/-- **Only a prefix of the values gives a prefix of the stream.** -/
theorem isPrefix_of_encodeAll_isPrefix {as bs : List α} (ha : ∀ a ∈ as, c.Legal a)
    (hb : ∀ b ∈ bs, c.Legal b) (h : c.encodeAll as <+: c.encodeAll bs) : as <+: bs := by
  induction as generalizing bs with
  | nil => exact List.nil_prefix
  | cons a as ih =>
    obtain ⟨t, ht⟩ := h
    have hread := c.parse_encode a (c.encodeAll as ++ t) (ha a List.mem_cons_self)
    rw [← List.append_assoc, ← encodeAll_cons, ht] at hread
    cases bs with
    | nil => rw [show c.encodeAll [] = [] from rfl, c.parse_nil] at hread; cases hread
    | cons b bs =>
      -- the first value of the two streams is the same, and so is what follows it
      rw [encodeAll_cons, c.parse_encode b _ (hb b List.mem_cons_self)] at hread
      obtain ⟨rfl, hrest⟩ := Prod.mk.inj (Option.some.inj hread)
      refine List.cons_prefix_cons.mpr ⟨rfl, ih ?_ ?_ ⟨t, hrest.symm⟩⟩
      · exact fun x hx => ha x (List.mem_cons_of_mem b hx)
      · exact fun x hx => hb x (List.mem_cons_of_mem b hx)

/-! ## Streams that are not codes all the way -/

variable (c) in
/-- Nothing but the code of a legal value is read as a value. -/
def Exact : Prop := ∀ s a rest, c.parse s = some (a, rest) → c.Legal a ∧ s = c.encode a ++ rest

variable (c) in
/-- The codes of the values are the longest prefix of the stream that consists of codes. -/
structure LongestPrefix (as : List α) (s : List β) : Prop where
  legal : ∀ a ∈ as, c.Legal a
  isPrefix : c.encodeAll as <+: s
  longest : ∀ bs, (∀ b ∈ bs, c.Legal b) → c.encodeAll bs <+: s → bs <+: as

theorem encode_ne_nil {a : α} (h : c.Legal a) : c.encode a ≠ [] := by
  intro hnil
  have hread := c.parse_encode a [] h
  rw [hnil, List.append_nil, c.parse_nil] at hread
  cases hread

/-- Values that end where nothing can be read are all there are. -/
theorem longestPrefix_of_parse_none {as : List α} {rest : List β} (ha : ∀ a ∈ as, c.Legal a)
    (hrest : c.parse rest = none) : c.LongestPrefix as (c.encodeAll as ++ rest) := by
  refine ⟨ha, List.prefix_append _ _, fun bs hb hpre => ?_⟩
  induction bs generalizing as with
  | nil => exact List.nil_prefix
  | cons b bs ih =>
    obtain ⟨t, ht⟩ := hpre
    have hread := c.parse_encode b (c.encodeAll bs ++ t) (hb b List.mem_cons_self)
    rw [← List.append_assoc, ← encodeAll_cons, ht] at hread
    cases as with
    | nil => rw [show c.encodeAll [] = [] from rfl, List.nil_append, hrest] at hread; cases hread
    | cons a as =>
      rw [encodeAll_cons, List.append_assoc, c.parse_encode a _ (ha a List.mem_cons_self)] at hread
      obtain ⟨rfl, htail⟩ := Prod.mk.inj (Option.some.inj hread)
      refine List.cons_prefix_cons.mpr ⟨rfl, ih ?_ ?_ ⟨t, htail.symm⟩⟩
      · exact fun x hx => ha x (List.mem_cons_of_mem a hx)
      · exact fun x hx => hb x (List.mem_cons_of_mem a hx)

/-- **Every stream is codes of legal values up to where nothing can be read.** -/
theorem exists_longestPrefix (hc : c.Exact) (s : List β) :
    ∃ as rest, s = c.encodeAll as ++ rest ∧ c.parse rest = none ∧ c.LongestPrefix as s := by
  suffices h : ∃ as rest, s = c.encodeAll as ++ rest ∧ c.parse rest = none ∧
      ∀ a ∈ as, c.Legal a by
    obtain ⟨as, rest, rfl, hrest, hlegal⟩ := h
    exact ⟨as, rest, rfl, hrest, longestPrefix_of_parse_none hlegal hrest⟩
  -- a code is not empty, so each value that is read makes the stream shorter
  induction hn : s.length using Nat.strong_induction_on generalizing s with
  | _ n ih =>
    cases hparse : c.parse s with
    | none => exact ⟨[], s, rfl, hparse, nofun⟩
    | some r =>
      obtain ⟨a, s'⟩ := r
      obtain ⟨hlegal, rfl⟩ := hc s a s' hparse
      have hpos := List.length_pos_of_ne_nil (encode_ne_nil hlegal)
      rw [List.length_append] at hn
      obtain ⟨as, rest, rfl, hrest, hall⟩ := ih s'.length (by omega) s' rfl
      refine ⟨a :: as, rest, by rw [encodeAll_cons, List.append_assoc], hrest, ?_⟩
      exact List.forall_mem_cons.mpr ⟨hlegal, hall⟩

/-! ## Streams that are cut -/

variable (c) in
/-- The values whose codes fit into the first `n` symbols of the stream. -/
def fitting : Nat → List α → List α
  | _, [] => []
  | n, a :: as =>
    if (c.encode a).length ≤ n then a :: fitting (n - (c.encode a).length) as else []

theorem fitting_isPrefix (n : Nat) (as : List α) : c.fitting n as <+: as := by
  induction as generalizing n with
  | nil => exact List.nil_prefix
  | cons a as ih =>
    rw [fitting]
    split
    · exact List.cons_prefix_cons.mpr ⟨rfl, ih _⟩
    · exact List.nil_prefix

/-- Nothing is read off a code whose end is missing. -/
theorem parse_take_encode (hc : c.Exact) {a : α} (ha : c.Legal a) {n : Nat}
    (hn : n < (c.encode a).length) : c.parse ((c.encode a).take n) = none := by
  cases hread : c.parse ((c.encode a).take n) with
  | none => rfl
  | some r =>
    obtain ⟨b, rest⟩ := r
    obtain ⟨hb, hsplit⟩ := hc _ b rest hread
    -- the whole code would be read as `b`, with something left
    have hwhole : c.encode a ++ [] = c.encode b ++ (rest ++ (c.encode a).drop n) := by
      rw [← List.append_assoc, ← hsplit, List.take_append_drop, List.append_nil]
    have hread' := c.parse_encode a [] ha
    rw [hwhole, c.parse_encode b _ hb] at hread'
    have hnil := (List.append_eq_nil_iff.mp (Prod.mk.inj (Option.some.inj hread')).2).2
    rw [List.drop_eq_nil_iff] at hnil
    omega

/-- **A stream that is cut is the codes that fit, and a rest off which nothing is read.** -/
theorem exists_take_encodeAll (hc : c.Exact) {as : List α} (ha : ∀ a ∈ as, c.Legal a) (n : Nat) :
    ∃ rest, (c.encodeAll as).take n = c.encodeAll (c.fitting n as) ++ rest ∧
      c.parse rest = none := by
  induction as generalizing n with
  | nil => exact ⟨[], List.take_nil, c.parse_nil⟩
  | cons a as ih =>
    rw [encodeAll_cons, fitting]
    split
    · next hle =>
      obtain ⟨rest, htake, hrest⟩ := ih (fun b hb => ha b (List.mem_cons_of_mem a hb))
        (n - (c.encode a).length)
      refine ⟨rest, ?_, hrest⟩
      rw [List.take_append, List.take_of_length_le hle, htake, encodeAll_cons, List.append_assoc]
    · next hgt =>
      have hlt := Nat.lt_of_not_le hgt
      refine ⟨(c.encode a).take n, ?_, parse_take_encode hc (ha a List.mem_cons_self) hlt⟩
      rw [List.take_append, Nat.sub_eq_zero_of_le hlt.le, List.take_zero, List.append_nil]
      rfl

end StreamCode

end Lib
