import FabricaNet.Go.Io

/-!
# `bufio.Reader` on a connection that delivers in pieces

A connection hands out its bytes in segments of any size, and what a `Read` returns is at most one
of them. `bufio.Reader` and `io.ReadFull` put the pieces together again.

`pending` is what has arrived and not been returned yet, in the buffer or not. In these terms the
reader is `readFull` of `FabricaNet/Go/Io.lean` on a plain stream (`readFull_eq`): how the stream is
cut into segments does not matter.

## Termination

No fuel. Every `Read` that returns no error takes bytes from the buffer, or moves bytes from the
connection to the buffer, or uses up an empty segment, so `weight` decreases.
-/

namespace Go

/-- What a connection will deliver. -/
structure Source where
  /-- each `Read` returns bytes of one segment -/
  segments : List (List UInt8)
  /-- the error after the last segment -/
  final : Err
  /-- whether the last bytes come together with the error -/
  eager : Bool

/-- `conn.Read(p)` for a `p` of length `n`. -/
def Source.read (c : Source) (n : Nat) : List UInt8 × Option Err × Source :=
  match c.segments with
  | [] => ([], some c.final, c)
  | seg :: rest =>
    if seg.length ≤ n then
      (seg, if rest.isEmpty && c.eager then some c.final else none, { c with segments := rest })
    else (seg.take n, none, { c with segments := seg.drop n :: rest })

/-- A byte that has not arrived counts two, and a segment counts too. -/
def Source.weight (c : Source) : Nat := 2 * c.segments.flatten.length + c.segments.length

/-- What one `Read` of the connection does. -/
structure Source.Reads (c : Source) (n : Nat) (bytes : List UInt8) (e : Option Err) (c' : Source) :
    Prop where
  le : bytes.length ≤ n
  split : bytes ++ c'.segments.flatten = c.segments.flatten
  final_eq : c'.final = c.final
  err : ∀ x, e = some x → x = c.final ∧ c'.segments = []
  weight : e = none ∨ bytes ≠ [] → bytes.length + c'.weight < c.weight

theorem Source.reads_read (c : Source) {n : Nat} (hn : n ≠ 0) :
    ∃ bytes e c', c.read n = (bytes, e, c') ∧ c.Reads n bytes e c' := by
  obtain ⟨segments, final, eager⟩ := c
  unfold Source.read
  cases segments with
  | nil =>
    refine ⟨[], some final, _, rfl, Nat.zero_le _, rfl, rfl, fun x hx => ?_, nofun⟩
    exact ⟨(Option.some.inj hx).symm, rfl⟩
  | cons seg rest =>
    simp only
    by_cases hlen : seg.length ≤ n
    · rw [if_pos hlen]
      refine ⟨_, _, _, rfl, hlen, rfl, rfl, fun x hx => ?_, fun _ => ?_⟩
      · split at hx
        · next hlast =>
          rw [Bool.and_eq_true, List.isEmpty_iff] at hlast
          exact ⟨(Option.some.inj hx).symm, hlast.1⟩
        · cases hx
      · simp only [weight, List.flatten_cons, List.length_append, List.length_cons]
        omega
    · rw [if_neg hlen]
      refine ⟨_, _, _, rfl, List.length_take_le .., ?_, rfl, nofun, fun _ => ?_⟩
      · simp only [List.flatten_cons, ← List.append_assoc, List.take_append_drop]
      · simp only [weight, List.flatten_cons, List.length_append, List.length_cons,
          List.length_drop, List.length_take]
        omega

/-- `bufio.Reader`, with the part of its buffer that has not been read. -/
structure BufReader where
  rd : Source
  buf : List UInt8
  /-- an error of the connection that has not been returned yet -/
  err : Option Err

namespace BufReader

/-- The default buffer size of `bufio`. -/
def bufSize : Nat := 4096

/-- `bufio.NewReader(conn)`. -/
def new (rd : Source) : BufReader := { rd := rd, buf := [], err := none }

/-- `Read` when the buffer is empty: one `Read` of the connection. -/
def readEmpty (b : BufReader) (n : Nat) : List UInt8 × Option Err × BufReader :=
  if bufSize ≤ n then
    -- a large read goes past the buffer
    let (bytes, err, rd) := b.rd.read n
    (bytes, err, { b with rd := rd })
  else
    let (bytes, err, rd) := b.rd.read bufSize
    if bytes.isEmpty then ([], err, { b with rd := rd })
    else (bytes.take n, none, { rd := rd, buf := bytes.drop n, err := err })

/-- `Read(p)` for a `p` of length `n`. An error is returned once. -/
def read (b : BufReader) (n : Nat) : List UInt8 × Option Err × BufReader :=
  if n = 0 then
    if b.buf.isEmpty then ([], b.err, { b with err := none }) else ([], none, b)
  else if b.buf.isEmpty then
    match b.err with
    | some e => ([], some e, { b with err := none })
    | none => b.readEmpty n
  else (b.buf.take n, none, { b with buf := b.buf.drop n })

/-! ## One `Read` -/

/-- The bytes that have not been returned yet. -/
def pending (b : BufReader) : List UInt8 := b.buf ++ b.rd.segments.flatten

/-- An error that is kept is the one after the last segment. -/
def Sound (b : BufReader) : Prop :=
  ∀ e, b.err = some e → e = b.rd.final ∧ b.rd.segments = []

def weight (b : BufReader) : Nat := b.buf.length + b.rd.weight

/-- What a `Read` does to the stream. -/
structure Reads (b : BufReader) (n : Nat) (bytes : List UInt8) (e : Option Err) (b' : BufReader) :
    Prop where
  le : bytes.length ≤ n
  split : bytes ++ b'.pending = b.pending
  final_eq : b'.rd.final = b.rd.final
  err : b.Sound → ∀ x, e = some x → x = b.rd.final ∧ b'.pending = []
  sound : b.Sound → b'.Sound
  weight : e = none → b'.weight < b.weight

theorem sound_of_none {b : BufReader} (h : b.err = none) : b.Sound := by
  intro e he
  rw [h] at he
  cases he

theorem reads_readEmpty {b : BufReader} (hbuf : b.buf = []) (herr : b.err = none) {n : Nat}
    (hn : n ≠ 0) :
    ∃ bytes e b', b.readEmpty n = (bytes, e, b') ∧ b.Reads n bytes e b' := by
  obtain ⟨rd, buf, err⟩ := b
  subst hbuf herr
  unfold readEmpty
  by_cases hlarge : bufSize ≤ n
  · obtain ⟨bytes, e, rd', hread, hr⟩ := rd.reads_read hn
    simp only [if_pos hlarge, hread]
    refine ⟨_, _, _, rfl, hr.le, hr.split, hr.final_eq, fun _ x hx => ?_,
      fun _ => sound_of_none rfl, fun he => ?_⟩
    · obtain ⟨hx, hsegments⟩ := hr.err x hx
      exact ⟨hx, by rw [pending, hsegments]; rfl⟩
    · have := hr.weight (.inl he)
      simp only [weight, List.length_nil]
      omega
  · obtain ⟨bytes, e, rd', hread, hr⟩ := rd.reads_read (n := bufSize) (by decide)
    simp only [if_neg hlarge, hread]
    by_cases hempty : bytes = []
    · subst hempty
      refine ⟨_, _, _, rfl, Nat.zero_le _, hr.split, hr.final_eq, fun _ x hx => ?_,
        fun _ => sound_of_none rfl, fun he => ?_⟩
      · obtain ⟨hx, hsegments⟩ := hr.err x hx
        exact ⟨hx, by rw [pending, hsegments]; rfl⟩
      · have := hr.weight (.inl he)
        simp only [weight, List.length_nil] at this ⊢
        omega
    · -- the error, if there is one, waits until the buffer has been read
      rw [if_neg (mt List.isEmpty_iff.mp hempty)]
      refine ⟨_, _, _, rfl, List.length_take_le .., ?_, hr.final_eq, nofun, ?_, fun _ => ?_⟩
      · simp only [pending, List.nil_append, ← List.append_assoc, List.take_append_drop]
        exact hr.split
      · intro _ x hx
        rw [hr.final_eq]
        exact hr.err x hx
      · have := hr.weight (.inr hempty)
        simp only [weight, List.length_nil, List.length_drop]
        omega

/-- **A `Read` moves along the stream, and makes progress.** -/
theorem reads_read (b : BufReader) {n : Nat} (hn : n ≠ 0) :
    ∃ bytes e b', b.read n = (bytes, e, b') ∧ b.Reads n bytes e b' := by
  unfold read
  rw [if_neg hn]
  by_cases hbuf : b.buf = []
  · rw [if_pos (List.isEmpty_iff.mpr hbuf)]
    split
    · next e he =>
      refine ⟨_, _, _, rfl, Nat.zero_le _, rfl, rfl, fun hb x hx => ?_,
        fun _ => sound_of_none rfl, nofun⟩
      cases hx
      obtain ⟨hfinal, hsegments⟩ := hb e he
      exact ⟨hfinal, by rw [pending, hbuf, hsegments]; rfl⟩
    · next he => exact reads_readEmpty hbuf he hn
  · rw [if_neg (mt List.isEmpty_iff.mp hbuf)]
    have hpos := List.length_pos_iff.mpr hbuf
    refine ⟨_, _, _, rfl, List.length_take_le .., ?_, rfl, nofun, fun hb => hb, fun _ => ?_⟩
    · rw [pending, pending, ← List.append_assoc, List.take_append_drop]
    · simp only [weight, List.length_drop]
      omega

theorem weight_read {b b' : BufReader} {n : Nat} {bytes : List UInt8} (hn : n ≠ 0)
    (h : b.read n = (bytes, none, b')) : b'.weight < b.weight := by
  obtain ⟨_, _, _, hread, hr⟩ := b.reads_read hn
  cases h.symm.trans hread
  exact hr.weight rfl

/-! ## `io.ReadFull` -/

/-- The loop of `io.ReadAtLeast`, with `n` bytes to go. -/
def readFrom (b : BufReader) (n : Nat) : Option Err × List UInt8 × BufReader :=
  if _ : n = 0 then (none, [], b)
  else
    match _ : b.read n with
    -- an error that comes with the last bytes is dropped
    | (bytes, some e, b') => (if n ≤ bytes.length then none else some e, bytes, b')
    | (bytes, none, b') =>
      let (e, more, b'') := b'.readFrom (n - bytes.length)
      (e, bytes ++ more, b'')
termination_by b.weight
decreasing_by exact weight_read ‹_› ‹_›

/-- `io.ReadFull`. -/
def readFull (b : BufReader) (n : Nat) : Option Err × List UInt8 × BufReader :=
  match b.readFrom n with
  | (none, bytes, b') => (none, bytes, b')
  | (some e, bytes, b') =>
    (some (if bytes.isEmpty = false ∧ e = errEOF then errUnexpectedEOF else e), bytes, b')

/-- How the loop ends: with the bytes asked for, or with all there are. -/
inductive ReadsFull (b : BufReader) (n : Nat) : Option Err × List UInt8 × BufReader → Prop
  | enough {b' : BufReader} (sound : b'.Sound) (final_eq : b'.rd.final = b.rd.final)
      (le : n ≤ b.pending.length) (left : b'.pending = b.pending.drop n) :
      ReadsFull b n (none, b.pending.take n, b')
  | short {b' : BufReader} (sound : b'.Sound) (final_eq : b'.rd.final = b.rd.final)
      (lt : b.pending.length < n) (left : b'.pending = []) :
      ReadsFull b n (some b.rd.final, b.pending, b')

theorem readsFull_readFrom {b : BufReader} (hb : b.Sound) (n : Nat) :
    ReadsFull b n (b.readFrom n) := by
  fun_induction readFrom b n with
  | case1 b =>
    have h := ReadsFull.enough (b := b) (n := 0) hb rfl (Nat.zero_le _) List.drop_zero.symm
    rwa [List.take_zero] at h
  | case2 b n hn bytes e b' hread =>
    obtain ⟨_, _, _, hread', hreads⟩ := b.reads_read hn
    cases hread.symm.trans hread'
    have hlen := hreads.le
    obtain ⟨rfl, hleft⟩ := hreads.err hb e rfl
    have hall : bytes = b.pending := by rw [← hreads.split, hleft, List.append_nil]
    subst hall
    split
    · next hle =>
      have h := ReadsFull.enough (b := b) (hreads.sound hb) hreads.final_eq hle
        (hleft.trans (List.drop_eq_nil_of_le hlen).symm)
      rwa [List.take_of_length_le hlen] at h
    · next hlt => exact .short (hreads.sound hb) hreads.final_eq (Nat.lt_of_not_le hlt) hleft
  | case3 b n hn bytes b' hread e more b'' hmore ih =>
    obtain ⟨_, _, _, hread', hreads⟩ := b.reads_read hn
    cases hread.symm.trans hread'
    have hlen := hreads.le
    have hrest := ih (hreads.sound hb)
    rw [hmore] at hrest
    -- the rest of the loop reads what is pending behind the first bytes
    have hsplit := hreads.split
    have hlength : bytes.length + b'.pending.length = b.pending.length := by
      rw [← hsplit, List.length_append]
    cases hrest with
    | enough sound final_eq le left =>
      have h := ReadsFull.enough (b := b) (n := n) sound (final_eq.trans hreads.final_eq)
        (by omega) ?_
      · rw [← hsplit, List.take_append, List.take_of_length_le hlen] at h
        exact h
      · rw [left, ← hsplit, List.drop_append, List.drop_eq_nil_of_le hlen]
        rfl
    | short sound final_eq lt left =>
      rw [hreads.final_eq, hsplit]
      exact .short sound (final_eq.trans hreads.final_eq) (by omega) left

/-- The peer closes the connection after the last byte. -/
structure Closes (b : BufReader) : Prop where
  sound : b.Sound
  final_eq : b.rd.final = errEOF

/--
**`io.ReadFull` on a buffered connection is `readFull` on the plain stream**, in the bytes, in the
error and in what it leaves.
-/
theorem readFull_eq {b : BufReader} (hb : b.Closes) (n : Nat) :
    ∃ b', b.readFull n = ((Go.readFull n b.pending).1, (Go.readFull n b.pending).2.1, b') ∧
      b'.pending = (Go.readFull n b.pending).2.2 ∧ b'.Closes := by
  have h := readsFull_readFrom hb.sound n
  unfold readFull Go.readFull
  generalize b.readFrom n = r at h
  cases h with
  | @enough b' sound final_eq le left =>
    simp only [if_pos le]
    exact ⟨b', rfl, left, sound, final_eq.trans hb.final_eq⟩
  | @short b' sound final_eq lt left =>
    simp only [if_neg (Nat.not_le.mpr lt), hb.final_eq, and_true]
    refine ⟨b', ?_, left, sound, final_eq.trans hb.final_eq⟩
    cases b.pending <;> rfl

theorem closes_new (segments : List (List UInt8)) (eager : Bool) :
    (new ⟨segments, errEOF, eager⟩).Closes := ⟨sound_of_none rfl, rfl⟩

end BufReader

end Go
