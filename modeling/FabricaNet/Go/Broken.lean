import FabricaNet.Go.Io

/-!
# `bufio.Writer` on a connection that breaks

A connection takes a number of bytes, the limit, and then breaks. What has been handed to the
writer so far is a stream, and the connection has got its first bytes: all of them, or as many as
the limit allows, and in the second case the writer has kept the error (`Writer.Upto`).
-/

namespace Go

/-- The connection breaks after `limit` bytes. -/
def Conn.Breaks (c : Conn) (limit : Nat) : Prop :=
  ∃ k e, c.fault = some (k, e) ∧ c.sent.length + k = limit

theorem Conn.Breaks.length_le {c : Conn} {limit : Nat} (h : c.Breaks limit) :
    c.sent.length ≤ limit := by
  obtain ⟨k, e, -, hk⟩ := h
  omega

/-- One `Write` of the connection: all bytes are sent, or those up to the limit. -/
theorem Conn.write_breaks {c : Conn} {limit : Nat} (h : c.Breaks limit) (p : List UInt8) :
    (∃ c', c.write p = (p.length, none, c') ∧ c'.Breaks limit ∧ c'.sent = c.sent ++ p) ∨
    ∃ n e c', c.write p = (n, some e, c') ∧ c'.sent = (c.sent ++ p).take limit ∧
      limit < (c.sent ++ p).length := by
  obtain ⟨k, e, hfault, hk⟩ := h
  unfold Conn.write
  rw [hfault]
  by_cases hle : p.length ≤ k
  · left
    simp only [if_pos hle]
    refine ⟨_, rfl, ⟨k - p.length, e, rfl, ?_⟩, rfl⟩
    rw [List.length_append]
    omega
  · right
    simp only [if_neg hle]
    refine ⟨k, e, _, rfl, ?_, ?_⟩
    · show c.sent ++ p.take k = _
      rw [List.take_append, List.take_of_length_le (Nat.le.intro hk), ← hk, Nat.add_sub_cancel_left]
    · rw [List.length_append]
      omega

namespace Writer

/-- The writer has been handed these bytes, on a connection that breaks after `limit` bytes. -/
inductive Upto (limit : Nat) (handed : List UInt8) (w : Writer) : Prop
  | live (err : w.err = none) (breaks : w.conn.Breaks limit) (written : w.written = handed)
  | dead {e : Err} (err : w.err = some e) (sent : w.conn.sent = handed.take limit)
      (lt : limit < handed.length)

variable {limit : Nat} {handed : List UInt8} {w : Writer}

/-- What an operation returns: no error as long as the writer keeps none. -/
structure Gives (limit : Nat) (handed : List UInt8) (e : Option Err) (w' : Writer) : Prop where
  upto : w'.Upto limit handed
  err_eq : e = w'.err

theorem flush_upto (h : w.Upto limit handed) :
    ∃ e w', w.flush = (e, w') ∧ Gives limit handed e w' ∧ (e = none → w'.buf = []) := by
  cases h with
  | @dead e err sent lt =>
    refine ⟨some e, w, ?_, ⟨.dead err sent lt, err.symm⟩, nofun⟩
    rw [flush, err]
  | live err breaks written =>
    obtain ⟨conn, buf, _⟩ := w
    subst err written
    unfold flush
    by_cases hbuf : buf = []
    · simp only [if_pos hbuf]
      exact ⟨none, _, rfl, ⟨.live rfl breaks rfl, rfl⟩, fun _ => hbuf⟩
    · simp only [if_neg hbuf]
      rcases Conn.write_breaks breaks buf with
        ⟨c', hwrite, hc', hsent⟩ | ⟨n, e, c', hwrite, hsent, hlt⟩
      · simp only [hwrite]
        refine ⟨none, _, rfl, ⟨.live rfl hc' ?_, rfl⟩, fun _ => rfl⟩
        rw [Writer.written, List.append_nil]
        exact hsent
      · simp only [hwrite]
        exact ⟨some e, _, rfl, ⟨.dead rfl hsent hlt, rfl⟩, nofun⟩

theorem writeEmpty_upto (err : w.err = none) (breaks : w.conn.Breaks limit)
    (written : w.written = handed) (hbuf : w.buf = []) (p : List UInt8) :
    ∃ n e w', w.writeEmpty p = (n, e, w') ∧ Gives limit (handed ++ p) e w' ∧
      (e = none → n = p.length) := by
  have hsent : w.conn.sent = handed := by rw [← written, Writer.written, hbuf, List.append_nil]
  unfold writeEmpty
  by_cases hle : p.length ≤ bufSize
  · rw [if_pos hle]
    refine ⟨_, none, _, rfl, ⟨.live err breaks ?_, err.symm⟩, fun _ => rfl⟩
    rw [Writer.written, hsent]
  · rw [if_neg hle]
    rcases Conn.write_breaks breaks p with
      ⟨c', hwrite, hc', hsent'⟩ | ⟨n, e, c', hwrite, hsent', hlt⟩
    · simp only [hwrite]
      refine ⟨_, none, _, rfl, ⟨.live err hc' ?_, err.symm⟩, fun _ => rfl⟩
      rw [Writer.written, hbuf, List.append_nil, ← hsent]
      exact hsent'
    · simp only [hwrite]
      rw [hsent] at hsent' hlt
      exact ⟨n, some e, _, rfl, ⟨.dead rfl hsent' hlt, rfl⟩,
        fun he => absurd he (Option.some_ne_none e)⟩

/-- What is handed to a writer that has kept an error is dropped. -/
theorem Upto.append_of_dead {e : Err} (err : w.err = some e)
    (sent : w.conn.sent = handed.take limit) (lt : limit < handed.length) (p : List UInt8) :
    w.Upto limit (handed ++ p) := by
  refine .dead err ?_ ?_
  · rw [sent, List.take_append, Nat.sub_eq_zero_of_le (Nat.le_of_lt lt), List.take_zero,
      List.append_nil]
  · rw [List.length_append]
    omega

/-- **`Write` on a connection that breaks.** -/
theorem write_upto (h : w.Upto limit handed) (p : List UInt8) :
    ∃ n e w', w.write p = (n, e, w') ∧ Gives limit (handed ++ p) e w' ∧
      (e = none → n = p.length) := by
  cases h with
  | @dead e err sent lt =>
    refine ⟨0, some e, w, ?_, ⟨.append_of_dead err sent lt p, err.symm⟩, nofun⟩
    rw [write, err]
  | live err breaks written =>
    obtain ⟨conn, buf, _⟩ := w
    subst err written
    unfold write
    simp only
    by_cases hbuf : buf = []
    · rw [if_pos hbuf]
      exact writeEmpty_upto rfl breaks rfl hbuf p
    · rw [if_neg hbuf]
      by_cases hroom : p.length ≤ bufSize - buf.length
      · rw [if_pos hroom]
        exact ⟨_, none, _, rfl, ⟨.live rfl breaks (List.append_assoc ..).symm, rfl⟩, fun _ => rfl⟩
      · rw [if_neg hroom]
        -- the buffer is filled and flushed, and the rest goes into the empty buffer
        have hfill : Upto limit (conn.sent ++ buf ++ p.take (bufSize - buf.length))
            ⟨conn, buf ++ p.take (bufSize - buf.length), none⟩ :=
          .live rfl breaks (List.append_assoc ..).symm
        have hp : conn.sent ++ buf ++ p.take (bufSize - buf.length) ++
            p.drop (bufSize - buf.length) = conn.sent ++ buf ++ p := by
          rw [List.append_assoc _ (p.take _), List.take_append_drop]
        obtain ⟨e, w', hflush, ⟨hupto, he⟩, hempty⟩ := flush_upto hfill
        rw [hflush]
        cases hupto with
        | @dead e' err' sent' lt' =>
          obtain rfl : e = some e' := he.trans err'
          have hdead := Upto.append_of_dead err' sent' lt' (p.drop (bufSize - buf.length))
          rw [hp] at hdead
          exact ⟨_, some e', w', rfl, ⟨hdead, he⟩, nofun⟩
        | live err' breaks' written' =>
          obtain rfl : e = none := he.trans err'
          obtain ⟨n, e, w'', hrest, hgives, hn⟩ :=
            writeEmpty_upto err' breaks' written' (hempty rfl) (p.drop (bufSize - buf.length))
          rw [hp] at hgives
          simp only [hrest]
          refine ⟨_, e, w'', rfl, hgives, fun he => ?_⟩
          rw [hn he, List.length_take, List.length_drop]
          omega

end Writer

end Go
