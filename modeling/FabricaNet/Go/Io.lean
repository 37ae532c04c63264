import Mathlib.Algebra.Group.Nat.Defs

/-!
# Errors, byte streams and `bufio`

* `Err` — an `error` value
* `putInt32`, `int32` — `encoding/binary` with `BigEndian` on an `int32`
* `readFull` — `io.ReadFull` on a stream of which the bytes still to come are known
* `Conn`, `Writer` — a connection that may break, and a `bufio.Writer` on it
-/

namespace Go

/-- A Go `error`. -/
inductive Err where
  /-- A variable that a package exports, compared by identity. -/
  | sentinel (text : String)
  | new (text : String)
  | wrap (cause : Err) (text : String)
  | join (err err' : Err)
deriving DecidableEq, Repr

/-- `errors.Join(err, e)` for an `err` that may be nil. A join of one error is that error. -/
def Err.joinTo (err : Option Err) (e : Err) : Err :=
  match err with
  | none => e
  | some err => .join err e

/-- `io.EOF`. -/
def errEOF : Err := .sentinel "EOF"

/-- `io.ErrUnexpectedEOF`. -/
def errUnexpectedEOF : Err := .sentinel "unexpected EOF"

/-! ## Big-endian words -/

/-- `binary.Write(w, binary.BigEndian, x)`: the bytes of `x`. -/
def putInt32 (x : Int32) : List UInt8 :=
  let v := x.toUInt32
  [(v >>> 24).toUInt8, (v >>> 16).toUInt8, (v >>> 8).toUInt8, v.toUInt8]

/-- `binary.Read(r, binary.BigEndian, &x)` on four bytes. -/
def int32 : List UInt8 → Int32
  | [a, b, c, d] =>
    (UInt32.ofNat (a.toNat * 2 ^ 24 + b.toNat * 2 ^ 16 + c.toNat * 2 ^ 8 + d.toNat)).toInt32
  | _ => 0

/-- **What is written is what is read.** -/
theorem int32_putInt32 (x : Int32) : int32 (putInt32 x) = x := by
  have h := UInt32.toNat_lt x.toUInt32
  have hword : UInt32.ofNat ((x.toUInt32 >>> 24).toUInt8.toNat * 2 ^ 24 +
      (x.toUInt32 >>> 16).toUInt8.toNat * 2 ^ 16 + (x.toUInt32 >>> 8).toUInt8.toNat * 2 ^ 8 +
      x.toUInt32.toUInt8.toNat) = x.toUInt32 := by
    apply UInt32.toNat_inj.mp
    simp only [UInt32.toNat_ofNat', UInt32.toNat_toUInt8, UInt32.toNat_shiftRight,
      Nat.shiftRight_eq_div_pow]
    generalize x.toUInt32.toNat = n at h ⊢
    simp only [show (24 : UInt32).toNat % 32 = 24 from rfl,
      show (16 : UInt32).toNat % 32 = 16 from rfl, show (8 : UInt32).toNat % 32 = 8 from rfl]
    omega
  simp only [putInt32, int32, hword]
  exact Int32.toInt32_toUInt32 x

/-- Four bytes that are read are written again. -/
theorem putInt32_int32 {bytes : List UInt8} (h : bytes.length = 4) :
    putInt32 (int32 bytes) = bytes := by
  obtain ⟨a, b, c, d, rfl⟩ : ∃ a b c d, bytes = [a, b, c, d] := by
    match bytes, h with
    | [a, b, c, d], _ => exact ⟨a, b, c, d, rfl⟩
  have ha := a.toNat_lt
  have hb := b.toNat_lt
  have hc := c.toNat_lt
  have hd := d.toNat_lt
  have hbytes : ∀ {x y : UInt8}, x.toNat = y.toNat → x = y := fun h => UInt8.toNat_inj.mp h
  simp only [putInt32, int32, UInt32.toUInt32_toInt32, List.cons.injEq, and_true]
  refine ⟨hbytes ?_, hbytes ?_, hbytes ?_, hbytes ?_⟩
  all_goals
    simp only [UInt32.toNat_toUInt8, UInt32.toNat_shiftRight, UInt32.toNat_ofNat',
      Nat.shiftRight_eq_div_pow, show (24 : UInt32).toNat % 32 = 24 from rfl,
      show (16 : UInt32).toNat % 32 = 16 from rfl, show (8 : UInt32).toNat % 32 = 8 from rfl]
    omega

/-! ## Reading -/

/--
`io.ReadFull` into a buffer of length `n`, when the bytes still to come on the stream are `s`: the
error, the bytes read, the bytes left.
-/
def readFull (n : Nat) (s : List UInt8) : Option Err × List UInt8 × List UInt8 :=
  if n ≤ s.length then (none, s.take n, s.drop n)
  else (some (if s.isEmpty then errEOF else errUnexpectedEOF), s, [])

/-! ## Writing -/

/-- A connection. `fault`: how many more bytes it takes before it breaks, and with which error. -/
structure Conn where
  sent : List UInt8
  fault : Option (Nat × Err)

/-- `conn.Write(p)`. -/
def Conn.write (c : Conn) (p : List UInt8) : Nat × Option Err × Conn :=
  match c.fault with
  | none => (p.length, none, { c with sent := c.sent ++ p })
  | some (k, e) =>
    if p.length ≤ k then
      (p.length, none, { sent := c.sent ++ p, fault := some (k - p.length, e) })
    else (k, some e, { sent := c.sent ++ p.take k, fault := some (0, e) })

theorem Conn.write_of_fault_none {c : Conn} (h : c.fault = none) (p : List UInt8) :
    c.write p = (p.length, none, { c with sent := c.sent ++ p }) := by
  unfold Conn.write
  rw [h]

/-- `bufio.Writer`. An error stays. -/
structure Writer where
  conn : Conn
  buf : List UInt8
  err : Option Err

namespace Writer

/-- The default buffer size of `bufio`. -/
def bufSize : Nat := 4096

/-- `Flush`. -/
def flush (w : Writer) : Option Err × Writer :=
  match w.err with
  | some e => (some e, w)
  | none =>
    if w.buf = [] then (none, w)
    else
      match w.conn.write w.buf with
      | (_, none, c) => (none, { w with conn := c, buf := [] })
      | (n, some e, c) => (some e, { conn := c, buf := w.buf.drop n, err := some e })

/-- `Write` into an empty buffer: what does not fit goes straight to the connection. -/
def writeEmpty (w : Writer) (p : List UInt8) : Nat × Option Err × Writer :=
  if p.length ≤ bufSize then (p.length, none, { w with buf := p })
  else
    match w.conn.write p with
    | (n, none, c) => (n, none, { w with conn := c })
    | (n, some e, c) => (n, some e, { w with conn := c, err := some e })

/-- `Write`. What does not fit fills the buffer, which is flushed first. -/
def write (w : Writer) (p : List UInt8) : Nat × Option Err × Writer :=
  match w.err with
  | some e => (0, some e, w)
  | none =>
    let room := bufSize - w.buf.length
    if w.buf = [] then w.writeEmpty p
    else if p.length ≤ room then (p.length, none, { w with buf := w.buf ++ p })
    else
      match { w with buf := w.buf ++ p.take room }.flush with
      | (some e, w') => ((p.take room).length, some e, w')
      | (none, w') =>
        let (n, e, w'') := w'.writeEmpty (p.drop room)
        ((p.take room).length + n, e, w'')

/-- A writer that has met no error, on a connection that does not break. -/
structure Healthy (w : Writer) : Prop where
  err_none : w.err = none
  fault_none : w.conn.fault = none

/-- The bytes that have been written, on the connection or still in the buffer. -/
def written (w : Writer) : List UInt8 := w.conn.sent ++ w.buf

theorem flush_healthy {w : Writer} (h : w.Healthy) :
    ∃ w', w.flush = (none, w') ∧ w'.Healthy ∧ w'.buf = [] ∧ w'.written = w.written := by
  obtain ⟨conn, buf, err⟩ := w
  obtain ⟨rfl, hfault⟩ : err = none ∧ conn.fault = none := ⟨h.err_none, h.fault_none⟩
  unfold flush
  simp only
  split
  · next hbuf => exact ⟨_, rfl, h, hbuf, rfl⟩
  · rw [Conn.write_of_fault_none hfault]
    exact ⟨_, rfl, ⟨rfl, hfault⟩, rfl, by simp [written]⟩

theorem writeEmpty_healthy {w : Writer} (h : w.Healthy) (hbuf : w.buf = []) (p : List UInt8) :
    ∃ w', w.writeEmpty p = (p.length, none, w') ∧ w'.Healthy ∧ w'.written = w.written ++ p := by
  unfold writeEmpty
  split
  · exact ⟨_, rfl, ⟨h.err_none, h.fault_none⟩, by simp [written, hbuf]⟩
  · rw [Conn.write_of_fault_none h.fault_none]
    exact ⟨_, rfl, ⟨h.err_none, h.fault_none⟩, by simp [written, hbuf]⟩

/-- **On a healthy connection `Write` takes all the bytes, in order.** -/
theorem write_healthy {w : Writer} (h : w.Healthy) (p : List UInt8) :
    ∃ w', w.write p = (p.length, none, w') ∧ w'.Healthy ∧ w'.written = w.written ++ p := by
  obtain ⟨conn, buf, err⟩ := w
  obtain ⟨rfl, hfault⟩ : err = none ∧ conn.fault = none := ⟨h.err_none, h.fault_none⟩
  unfold write
  simp only
  split
  · next hbuf => exact writeEmpty_healthy h hbuf p
  · split
    · exact ⟨_, rfl, ⟨rfl, hfault⟩, by simp [written]⟩
    · have hfill : Healthy ⟨conn, buf ++ p.take (bufSize - buf.length), none⟩ := ⟨rfl, hfault⟩
      obtain ⟨w', hflush, hw', hbuf, hwritten⟩ := flush_healthy hfill
      obtain ⟨w'', hrest, hw'', hwritten'⟩ :=
        writeEmpty_healthy hw' hbuf (p.drop (bufSize - buf.length))
      refine ⟨w'', ?_, hw'', ?_⟩
      · rw [hflush]
        simp only [hrest, ← List.length_append, List.take_append_drop]
      · rw [hwritten', hwritten]
        simp [written, List.append_assoc]

/-! A `Write` that returns no error has taken all the bytes. -/

theorem length_of_connWrite {c c' : Conn} {p : List UInt8} {n : Nat}
    (h : c.write p = (n, none, c')) : n = p.length := by
  unfold Conn.write at h
  split at h
  · cases h; rfl
  · split at h <;> cases h
    rfl

theorem length_of_writeEmpty {w w' : Writer} {p : List UInt8} {n : Nat}
    (h : w.writeEmpty p = (n, none, w')) : n = p.length := by
  unfold writeEmpty at h
  split at h
  · cases h; rfl
  · split at h
    · next hwrite => cases h; exact length_of_connWrite hwrite
    · cases h

theorem length_of_write {w w' : Writer} {p : List UInt8} {n : Nat}
    (h : w.write p = (n, none, w')) : n = p.length := by
  unfold write at h
  split at h
  · cases h
  · simp only at h
    split at h
    · exact length_of_writeEmpty h
    · split at h
      · cases h; rfl
      · split at h
        · cases h
        · next w₁ _ =>
          rcases hrest : w₁.writeEmpty (p.drop (bufSize - w.buf.length)) with ⟨m, err, w₂⟩
          rw [hrest] at h
          cases h
          rw [length_of_writeEmpty hrest, ← List.length_append, List.take_append_drop]

/-! What has gone out stays out. -/

theorem sent_prefix_flush {w : Writer} (h : w.Healthy) :
    w.conn.sent <+: w.flush.2.conn.sent := by
  obtain ⟨w', hflush, -, hbuf, hwritten⟩ := flush_healthy h
  rw [hflush]
  refine ⟨w.buf, ?_⟩
  rw [written, written, hbuf, List.append_nil] at hwritten
  exact hwritten.symm

theorem sent_prefix_writeEmpty {w : Writer} (h : w.Healthy) (p : List UInt8) :
    w.conn.sent <+: (w.writeEmpty p).2.2.conn.sent := by
  unfold writeEmpty
  split
  · exact List.prefix_rfl
  · rw [Conn.write_of_fault_none h.fault_none]
    exact List.prefix_append _ _

theorem sent_prefix_write {w : Writer} (h : w.Healthy) (p : List UInt8) :
    w.conn.sent <+: (w.write p).2.2.conn.sent := by
  unfold write
  rw [h.err_none]
  simp only
  split
  · exact sent_prefix_writeEmpty h p
  · split
    · exact List.prefix_rfl
    · -- the full buffer goes out first, and then perhaps the rest
      have hfill : Healthy ⟨w.conn, w.buf ++ p.take (bufSize - w.buf.length), w.err⟩ :=
        ⟨h.err_none, h.fault_none⟩
      obtain ⟨w', hflush, hw', -⟩ := flush_healthy hfill
      have hsent := sent_prefix_flush hfill
      rw [h.err_none] at hflush hsent
      rw [hflush] at hsent ⊢
      exact hsent.trans (sent_prefix_writeEmpty hw' _)

end Writer

end Go
