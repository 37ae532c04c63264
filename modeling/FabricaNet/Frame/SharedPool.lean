import FabricaNet.Frame.Roundtrip
import FabricaNet.Ringpool.MultiAtomic

/-!
# Connections that share a pool

All connections of a transport decode into buffers of the one pool of their frame package. Here any
number of connections are read at the same time: `Decode` of TCP and of KCP with the atomic steps of
`pool.Alloc` and `pool.Free`, and with `io.ReadFull` as the single reads that it makes.

A stream falls into the packs that have been decoded, the header and the part of the body that are
in the hands of `Decode`, and what is still to come (`Reader.Sound`). The part of the body lies in a
buffer of the pool, where it stays as it is because the buffer is held by one goroutine only
(`FabricaNet/Ringpool/MultiAtomic.lean`). So every connection gets the packs of its own stream,
whatever the others do (`connections_do_not_interfere`).

The two loops differ in when they free the buffer. A `Decode` that fails after it has allocated
panics on its nil `free`, and the buffer stays where it is.
-/

namespace FabricaNet.Frame

open Go Xnet Lib Ringpool

/-! ## The connections -/

/-- The loop that reads a connection. -/
inductive Loop where
  /-- `Worker.readLoop`: `free` runs at the end of a round -/
  | worker
  /-- `Dialog.receiveLoop`: the deferred calls of `free` run when the loop returns -/
  | dialog
deriving DecidableEq, Repr

/-- Where the goroutine of a connection is. -/
inductive ReaderPc where
  /-- `Decode` reads the length -/
  | header
  /-- inside `pool.Alloc` -/
  | alloc
  /-- inside `io.ReadFull(r, buf)`, with this many bytes read -/
  | fill (done : Nat)
  /-- `Decode` has returned the pack -/
  | pack
  /-- inside `pool.Free`; `returned` says whether the loop has -/
  | free (returned : Bool)
  | ended
deriving DecidableEq, Repr

/-- A connection, and the goroutine that reads it. -/
structure Reader where
  loop : Loop
  /-- the bytes that are still to come -/
  input : Bytes
  pc : ReaderPc := .header
  /-- the length of the pack that is being decoded -/
  packLen : Nat := 0
  /-- the packs that have been passed to `Decrypt`, in order -/
  packs : List Pack := []
  /-- `Decode` has failed -/
  failed : Bool := false
  /-- how many buffers a failed `Decode` has left behind -/
  lost : Nat := 0

/-- The connections and the pools. Connection `c` is read by goroutine `c`. -/
structure Readers where
  pools : MultiMachine
  conns : Nat → Reader

inductive ReaderAct where
  /-- `Decode` reads the length, and calls `pool.Alloc` -/
  | header (c : Nat)
  /-- the next step of the call of the pool -/
  | tick (c : Nat)
  /-- the call of the pool returns -/
  | returned (c : Nat)
  /-- a read of `io.ReadFull` returns `k` bytes -/
  | fill (c k : Nat)
  /-- a read of `io.ReadFull` finds the end of the stream -/
  | eof (c : Nat)
  /-- `Decrypt` gets the pack; `ok` says whether the loop goes on -/
  | handle (c : Nat) (ok : Bool)
  /-- the loop finds that it is stopped -/
  | stop (c : Nat)
  /-- a deferred call of `free` -/
  | deferred (c : Nat)

namespace Readers

/-- The connections with the given streams, before anything is read. -/
def init (pool : MultiSizeRingPool) (heap : Heap) (loops : Nat → Loop) (input : Nat → Bytes) :
    Readers where
  pools := .init pool heap
  conns := fun c => { loop := loops c, input := input c }

/-- The connections with one of them replaced. -/
def setConn (s : Readers) (c : Nat) (x : Reader) : Readers :=
  { s with conns := Function.update s.conns c x }

/-- An action on the pools, after which the connection is `x`. -/
def usePool (s : Readers) (c : Nat) (act : MultiAct) (x : Reader) : Option Readers :=
  (s.pools.step act).map fun pools => { s with pools := pools }.setConn c x

/-- `Decode` up to the call of `pool.Alloc`. -/
def readHeader (s : Readers) (c : Nat) : Option Readers :=
  let x := s.conns c
  match readFull 4 x.input with
  | (some _, _, rest) => some (s.setConn c { x with input := rest, pc := .ended, failed := true })
  | (none, header, rest) =>
    let packLen := int32 header
    if badPackLen packLen then
      some (s.setConn c { x with input := rest, pc := .ended, failed := true })
    else
      s.usePool c (.alloc c packLen.toInt)
        { x with input := rest, pc := .alloc, packLen := packLen.toInt.toNat }

/-- `Decrypt` and what follows it in the loop. -/
def handle (s : Readers) (c : Nat) (ok : Bool) : Option Readers :=
  let x := s.conns c
  match (s.pools.gs c).held with
  | [] => none
  | buf :: _ =>
    let x := { x with packs := x.packs ++ [s.pools.heap.read buf] }
    match x.loop with
    | .worker => s.usePool c (.free c 0) { x with pc := .free !ok }
    | .dialog => some (s.setConn c { x with pc := if ok then .header else .ended })

def step (s : Readers) : ReaderAct → Option Readers
  | .header c =>
    match (s.conns c).pc with
    | .header => s.readHeader c
    | _ => none
  | .tick c =>
    match (s.conns c).pc with
    | .alloc | .free _ => s.usePool c (.tick c) (s.conns c)
    | _ => none
  | .returned c =>
    match (s.pools.gs c).pc, (s.conns c).pc with
    | .idle, .alloc => some (s.setConn c { s.conns c with pc := .fill 0 })
    | .idle, .free returned =>
      some (s.setConn c { s.conns c with pc := if returned then .ended else .header })
    | _, _ => none
  | .fill c k =>
    let x := s.conns c
    match x.pc with
    | .fill done =>
      if 0 < k ∧ k ≤ x.input.length ∧ done + k ≤ x.packLen then
        s.usePool c (.write c 0 done (x.input.take k)) { x with
          input := x.input.drop k
          pc := if done + k = x.packLen then .pack else .fill (done + k) }
      else none
    | _ => none
  | .eof c =>
    let x := s.conns c
    match x.pc, x.input with
    | .fill _, [] => some (s.setConn c { x with pc := .ended, failed := true, lost := 1 })
    | _, _ => none
  | .handle c ok =>
    match (s.conns c).pc with
    | .pack => s.handle c ok
    | _ => none
  | .stop c =>
    match (s.conns c).pc with
    | .header => some (s.setConn c { s.conns c with pc := .ended })
    | _ => none
  | .deferred c =>
    match (s.conns c).loop, (s.conns c).pc with
    | .dialog, .ended => s.usePool c (.free c (s.conns c).lost) { s.conns c with pc := .free true }
    | _, _ => none

end Readers

/-! ## What a connection has got -/

/-- The header of a pack of length `n`. -/
def headerOf (n : Nat) : Bytes := putInt32 (Int32.ofNat n)

/-- A length that `Decode` accepts. -/
def LegalLen (n : Nat) : Prop := 1 ≤ n ∧ n ≤ maxPackSize.toInt.toNat

/-- A connection against the bytes `input` that its peer has sent: what goes where. -/
def Reader.At (input : Bytes) (g : MultiGoroutine) (h : Heap) (x : Reader) : Prop :=
  match x.pc with
  | .header | .free false =>
    x.failed = false ∧ frameCode.encodeAll x.packs ++ x.input = input
  | .alloc =>
    x.failed = false ∧ LegalLen x.packLen ∧ g.Gets x.packLen ∧
      frameCode.encodeAll x.packs ++ (headerOf x.packLen ++ x.input) = input
  | .fill done =>
    x.failed = false ∧ LegalLen x.packLen ∧ done < x.packLen ∧
      ∃ buf, g.held.head? = some buf ∧ buf.len = x.packLen ∧
        ((h.mem buf.ptr).take done).length = done ∧ frameCode.encodeAll x.packs ++
          (headerOf x.packLen ++ ((h.mem buf.ptr).take done ++ x.input)) = input
  | .pack =>
    x.failed = false ∧ ∃ buf, g.held.head? = some buf ∧ Legal (h.read buf) ∧
      frameCode.encodeAll x.packs ++ (frame (h.read buf) ++ x.input) = input
  | .ended | .free true =>
    ∃ rest, frameCode.encodeAll x.packs ++ rest = input ∧
      (x.failed = true → parseFrame rest = none)

structure Reader.Sound (input : Bytes) (g : MultiGoroutine) (h : Heap) (x : Reader) : Prop where
  legal : ∀ p ∈ x.packs, Legal p
  at_pc : x.At input g h

/--
The connection has got packs of its own stream only, in order and each once. When `Decode` has
failed it has got all that there are.
-/
def Reader.Isolated (input : Bytes) (x : Reader) : Prop :=
  ∃ packs, frameCode.LongestPrefix packs input ∧ x.packs <+: packs ∧
    (x.failed = true → x.packs = packs)

namespace Reader

variable {input : Bytes} {g g' : MultiGoroutine} {h h' : Heap} {x : Reader}

theorem isolated_of_rest {rest : Bytes} (hlegal : ∀ p ∈ x.packs, Legal p)
    (hrest : frameCode.encodeAll x.packs ++ rest = input)
    (hfailed : x.failed = true → parseFrame rest = none) : x.Isolated input := by
  obtain ⟨packs, -, -, -, hlongest⟩ := StreamCode.exists_longestPrefix frameCode_exact input
  have hpre : x.packs <+: packs := hlongest.longest x.packs hlegal ⟨rest, hrest⟩
  refine ⟨packs, hlongest, hpre, fun hf => ?_⟩
  have hall : frameCode.LongestPrefix x.packs input :=
    hrest ▸ StreamCode.longestPrefix_of_parse_none (c := frameCode) hlegal (hfailed hf)
  have hback : packs <+: x.packs := hall.longest packs hlongest.legal hlongest.isPrefix
  exact hpre.eq_of_length (Nat.le_antisymm hpre.length_le hback.length_le)

theorem Sound.isolated (hs : x.Sound input g h) : x.Isolated input := by
  have hat := hs.at_pc
  have hno : x.failed = false → ∀ rest, x.failed = true → parseFrame rest = none :=
    fun hf rest ht => absurd (hf.symm.trans ht) (by decide)
  unfold At at hat
  split at hat
  · exact isolated_of_rest hs.legal hat.2 (hno hat.1 _)
  · exact isolated_of_rest hs.legal hat.2 (hno hat.1 _)
  · obtain ⟨hf, -, -, hrest⟩ := hat
    exact isolated_of_rest hs.legal hrest (hno hf _)
  · obtain ⟨hf, -, -, buf, -, -, -, hrest⟩ := hat
    exact isolated_of_rest hs.legal hrest (hno hf _)
  · obtain ⟨hf, buf, -, -, hrest⟩ := hat
    exact isolated_of_rest hs.legal hrest (hno hf _)
  · obtain ⟨rest, hrest, hf⟩ := hat
    exact isolated_of_rest hs.legal hrest hf
  · obtain ⟨rest, hrest, hf⟩ := hat
    exact isolated_of_rest hs.legal hrest hf

/-- **A connection depends on its goroutine and on the buffers that this one holds.** -/
theorem Sound.congr (hs : x.Sound input g h) (hg : g' = g)
    (hmem : ∀ b ∈ g.held, h'.mem b.ptr = h.mem b.ptr) : x.Sound input g' h' := by
  subst hg
  refine ⟨hs.legal, ?_⟩
  have hat := hs.at_pc
  have hhead : ∀ {buf}, g'.held.head? = some buf → h'.mem buf.ptr = h.mem buf.ptr :=
    fun hbuf => hmem _ (List.mem_of_head? hbuf)
  unfold At at hat ⊢
  split at hat
  · exact hat
  · exact hat
  · exact hat
  · obtain ⟨hf, hlen, hlt, buf, hbuf, hrest⟩ := hat
    refine ⟨hf, hlen, hlt, buf, hbuf, ?_⟩
    rw [hhead hbuf]
    exact hrest
  · obtain ⟨hf, buf, hbuf, hrest⟩ := hat
    refine ⟨hf, buf, hbuf, ?_⟩
    have hread : h'.read buf = h.read buf := by rw [Heap.read, Heap.read, hhead hbuf]
    rw [hread]
    exact hrest
  · exact hat
  · exact hat

end Reader

/-! ## Headers and bodies -/

theorem headerOf_length (n : Nat) : (headerOf n).length = 4 := rfl

theorem frame_eq (pack : Pack) : frame pack = headerOf pack.length ++ pack := rfl

theorem int32_headerOf {n : Nat} (hn : LegalLen n) : (int32 (headerOf n)).toInt.toNat = n := by
  have hmax : maxPackSize.toInt.toNat = 16384 := by decide
  have hle := hn.2
  rw [headerOf, int32_putInt32, Int32.toInt_ofNat_of_lt (by omega)]
  rfl

/-- The header that was read is the header of the length that was read. -/
theorem headerOf_int32 {header : Bytes} (hlen : header.length = 4)
    (hgood : badPackLen (int32 header) = false) :
    headerOf (int32 header).toInt.toNat = header := by
  have hrange := badPackLen_eq_false.mp hgood
  have hmax : maxPackSize.toInt.toNat = 16384 := by decide
  have hint : Int32.ofNat (int32 header).toInt.toNat = int32 header := by
    apply Int32.toInt_inj.mp
    rw [Int32.toInt_ofNat_of_lt (by omega)]
    omega
  rw [headerOf, hint]
  exact putInt32_int32 hlen

/-- A body that ends too early is no pack. -/
theorem parseFrame_of_short_body {n : Nat} {body : Bytes} (hn : LegalLen n)
    (hbody : body.length < n) : parseFrame (headerOf n ++ body) = none := by
  refine if_neg fun hc => ?_
  have htake : (headerOf n ++ body).take 4 = headerOf n := List.take_left' (headerOf_length n)
  have hdrop : (headerOf n ++ body).drop 4 = body := List.drop_left' (headerOf_length n)
  rw [htake, hdrop, int32_headerOf hn] at hc
  exact absurd hc.2.2 (Nat.not_le.mpr hbody)

/-- One more piece of the body, behind what is there. -/
theorem take_writeAt {h : Heap} {buf : Slice} {off : Nat} {bytes : Bytes}
    (hoff : ((h.mem buf.ptr).take off).length = off) :
    ((h.writeAt buf off bytes).mem buf.ptr).take (off + bytes.length) =
      (h.mem buf.ptr).take off ++ bytes := by
  simp only [Heap.writeAt, Function.update_self]
  refine List.take_left' ?_
  rw [List.length_append, hoff]

namespace Readers

variable {input : Nat → Bytes} {s s' : Readers} {c : Nat} {x : Reader} {act : MultiAct}

/-- Buffers have one owner each, and every connection is where its stream says. -/
structure Sound (input : Nat → Bytes) (s : Readers) : Prop where
  exclusive : Exclusive s.pools.live s.pools.own
  conn : ∀ c, (s.conns c).Sound (input c) (s.pools.gs c) s.pools.heap

/-! ## Steps of one connection -/

theorem Sound.setConn (hs : s.Sound input)
    (hx : x.Sound (input c) (s.pools.gs c) s.pools.heap) : (s.setConn c x).Sound input := by
  refine ⟨hs.exclusive, fun k => ?_⟩
  show (Function.update s.conns c x k).Sound _ _ _
  by_cases hk : k = c
  · subst hk
    rw [Function.update_self]
    exact hx
  · rw [Function.update_of_ne hk]
    exact hs.conn k

/-- A connection that uses the pool does not disturb the others. -/
theorem Sound.usePool (hs : s.Sound input) (h : s.usePool c act x = some s')
    (hact : act.goroutine = c)
    (hx : ∀ pools, MultiMachine.Goes s.pools act pools →
      x.Sound (input c) (pools.gs c) pools.heap) : s'.Sound input := by
  obtain ⟨pools, hstep, rfl⟩ := Option.map_eq_some_iff.mp h
  have hgoes := MultiMachine.goes_of_step hstep
  refine ⟨MultiMachine.exclusive_of_goes hs.exclusive hgoes, fun k => ?_⟩
  show (Function.update s.conns c x k).Sound _ (pools.gs k) pools.heap
  by_cases hk : k = c
  · subst hk
    rw [Function.update_self]
    exact hx pools hgoes
  · rw [Function.update_of_ne hk]
    refine (hs.conn k).congr (MultiMachine.gs_of_goes hgoes (hact ▸ hk)) fun b hb => ?_
    refine MultiMachine.contentsKept_of_goes hs.exclusive hgoes k b hb fun i off bytes he => ?_
    rw [he] at hact
    exact hk hact

theorem sound_header (hs : s.Sound input) (hpc : (s.conns c).pc = .header)
    (h : s.readHeader c = some s') : s'.Sound input := by
  obtain ⟨hlegal, hat⟩ := hs.conn c
  simp only [Reader.At, hpc] at hat
  obtain ⟨hfailed, hrest⟩ := hat
  unfold readHeader readFull at h
  by_cases h4 : 4 ≤ (s.conns c).input.length
  · simp only [if_pos h4] at h
    split at h
    · next hbad =>
      cases h
      exact hs.setConn ⟨hlegal, (s.conns c).input, hrest, fun _ => parseFrame_of_bad hbad⟩
    · next hgood =>
      rw [Bool.not_eq_true] at hgood
      have hheader := headerOf_int32 (List.length_take_of_le h4) hgood
      refine hs.usePool h rfl fun pools hgoes => ⟨hlegal, hfailed, badPackLen_eq_false.mp hgood,
        MultiMachine.gets_of_alloc hgoes, ?_⟩
      show _ ++ (headerOf _ ++ (s.conns c).input.drop 4) = _
      rw [hheader, List.take_append_drop]
      exact hrest
  · simp only [if_neg h4] at h
    cases h
    exact hs.setConn ⟨hlegal, (s.conns c).input, hrest, fun _ => parseFrame_of_short h4⟩

theorem sound_tick (hs : s.Sound input) (h : s.step (.tick c) = some s') : s'.Sound input := by
  obtain ⟨hlegal, hat⟩ := hs.conn c
  simp only [step] at h
  split at h
  · next hpc =>
    simp only [Reader.At, hpc] at hat
    obtain ⟨hfailed, hlen, hgets, hrest⟩ := hat
    refine hs.usePool h rfl fun pools hgoes => ⟨hlegal, ?_⟩
    simp only [Reader.At, hpc]
    exact ⟨hfailed, hlen, MultiMachine.gets_of_tick hgoes hgets, hrest⟩
  · next returned hpc =>
    refine hs.usePool h rfl fun pools hgoes => ⟨hlegal, ?_⟩
    cases returned <;> simp only [Reader.At, hpc] at hat ⊢ <;> exact hat
  · cases h

theorem sound_returned (hs : s.Sound input) (h : s.step (.returned c) = some s') :
    s'.Sound input := by
  obtain ⟨hlegal, hat⟩ := hs.conn c
  simp only [step] at h
  split at h
  · next hidle hpc =>
    cases h
    simp only [Reader.At, hpc] at hat
    obtain ⟨hfailed, hlen, hgets, hrest⟩ := hat
    rcases hgets with hwants | ⟨-, buf, hbuf, hbuflen⟩
    · rw [hidle] at hwants
      cases hwants
    · exact hs.setConn ⟨hlegal, hfailed, hlen, hlen.1, buf, hbuf, hbuflen, rfl, hrest⟩
  · next returned hidle hpc =>
    cases h
    cases returned <;> simp only [Reader.At, hpc] at hat
    · exact hs.setConn ⟨hlegal, hat⟩
    · exact hs.setConn ⟨hlegal, hat⟩
  · cases h

theorem sound_fill {k : Nat} (hs : s.Sound input) (h : s.step (.fill c k) = some s') :
    s'.Sound input := by
  obtain ⟨hlegal, hat⟩ := hs.conn c
  simp only [step] at h
  split at h
  · next done hpc =>
    split at h
    · next hk =>
      obtain ⟨hpos, hle, hfits⟩ := hk
      simp only [Reader.At, hpc] at hat
      obtain ⟨hfailed, hlen, hlt, buf, hbuf, hbuflen, hdone, hrest⟩ := hat
      have htake : ((s.conns c).input.take k).length = k := List.length_take_of_le hle
      refine hs.usePool h rfl fun pools hgoes => ⟨hlegal, ?_⟩
      cases hgoes with
      | @write _ _ _ _ buf' hheld hfit =>
        obtain rfl : buf' = buf :=
          Option.some.inj (hheld.symm.trans (List.head?_eq_getElem?.symm.trans hbuf))
        have hmem : ((s.pools.heap.writeAt buf' done ((s.conns c).input.take k)).mem buf'.ptr).take
            (done + ((s.conns c).input.take k).length) = _ := take_writeAt hdone
        rw [htake] at hmem
        -- the stream is cut at another place now
        have hstream : frameCode.encodeAll (s.conns c).packs ++ (headerOf (s.conns c).packLen ++
            (((s.pools.heap.writeAt buf' done ((s.conns c).input.take k)).mem buf'.ptr).take
              (done + k) ++ (s.conns c).input.drop k)) = input c := by
          rw [hmem, List.append_assoc, List.take_append_drop]
          exact hrest
        have hmemlen : (((s.pools.heap.writeAt buf' done ((s.conns c).input.take k)).mem
            buf'.ptr).take (done + k)).length = done + k := by
          rw [hmem, List.length_append, hdone, htake]
        by_cases hall : done + k = (s.conns c).packLen
        · simp only [Reader.At, if_pos hall]
          have hread : (s.pools.heap.writeAt buf' done ((s.conns c).input.take k)).read buf' =
              ((s.pools.heap.writeAt buf' done ((s.conns c).input.take k)).mem buf'.ptr).take
                (done + k) := by
            rw [Heap.read, hbuflen, hall]
          refine ⟨hfailed, buf', hbuf, ?_, ?_⟩
          · rw [hread, Legal, hmemlen, hall]
            exact hlen
          · rw [hread, frame_eq, hmemlen, hall, List.append_assoc]
            rw [hall] at hstream
            exact hstream
        · simp only [Reader.At, if_neg hall]
          exact ⟨hfailed, hlen, by omega, buf', hbuf, hbuflen, hmemlen, hstream⟩
    · cases h
  · cases h

theorem sound_eof (hs : s.Sound input) (h : s.step (.eof c) = some s') : s'.Sound input := by
  obtain ⟨hlegal, hat⟩ := hs.conn c
  simp only [step] at h
  split at h
  · next done hpc hinput =>
    cases h
    simp only [Reader.At, hpc] at hat
    obtain ⟨-, hlen, hlt, buf, -, -, hdone, hrest⟩ := hat
    rw [hinput, List.append_nil] at hrest
    refine hs.setConn ⟨hlegal, _, hrest, fun _ => parseFrame_of_short_body hlen ?_⟩
    rw [hdone]
    exact hlt
  · cases h

theorem sound_handle {ok : Bool} (hs : s.Sound input) (hpc : (s.conns c).pc = .pack)
    (h : s.handle c ok = some s') : s'.Sound input := by
  obtain ⟨hlegal, hat⟩ := hs.conn c
  simp only [Reader.At, hpc] at hat
  obtain ⟨hfailed, buf, hbuf, hpack, hrest⟩ := hat
  unfold handle at h
  simp only at h
  split at h
  · cases h
  · next buf' rest hheld =>
    rw [hheld] at hbuf
    cases hbuf
    have hlegal' : ∀ p ∈ (s.conns c).packs ++ [s.pools.heap.read buf], Legal p := by
      intro p hp
      rcases List.mem_append.mp hp with hp | hp
      · exact hlegal p hp
      · rw [List.mem_singleton.mp hp]
        exact hpack
    have hstream : frameCode.encodeAll ((s.conns c).packs ++ [s.pools.heap.read buf]) ++
        (s.conns c).input = input c := by
      rw [StreamCode.encodeAll_append, StreamCode.encodeAll_singleton, List.append_assoc]
      exact hrest
    have hgood : (s.conns c).failed = true → parseFrame (s.conns c).input = none :=
      fun hf => absurd (hfailed.symm.trans hf) (by decide)
    split at h
    · refine hs.usePool h rfl fun pools _ => ⟨hlegal', ?_⟩
      cases ok
      · exact ⟨_, hstream, hgood⟩
      · exact ⟨hfailed, hstream⟩
    · cases h
      cases ok
      · exact hs.setConn ⟨hlegal', _, hstream, hgood⟩
      · exact hs.setConn ⟨hlegal', hfailed, hstream⟩

/-- **Every step keeps every connection with its own stream.** -/
theorem sound_step {a : ReaderAct} (hs : s.Sound input) (h : s.step a = some s') :
    s'.Sound input := by
  cases a with
  | header c =>
    simp only [step] at h
    split at h
    · next hpc => exact sound_header hs hpc h
    · cases h
  | tick c => exact sound_tick hs h
  | returned c => exact sound_returned hs h
  | fill c k => exact sound_fill hs h
  | eof c => exact sound_eof hs h
  | handle c ok =>
    simp only [step] at h
    split at h
    · next hpc => exact sound_handle hs hpc h
    · cases h
  | stop c =>
    obtain ⟨hlegal, hat⟩ := hs.conn c
    simp only [step] at h
    split at h
    · next hpc =>
      cases h
      simp only [Reader.At, hpc] at hat
      exact hs.setConn ⟨hlegal, _, hat.2, fun hf => absurd (hat.1.symm.trans hf) (by decide)⟩
    · cases h
  | deferred c =>
    obtain ⟨hlegal, hat⟩ := hs.conn c
    simp only [step] at h
    split at h
    · next hloop hpc =>
      simp only [Reader.At, hpc] at hat
      exact hs.usePool h rfl fun pools _ => ⟨hlegal, hat⟩
    · cases h

theorem sound_init {m : AList fun _ : Int => UInt64} {pick : Int → Nat → Option Nat}
    {h heap : Heap} {mp : MultiSizeRingPool}
    (hnew : newMultiSizeRingPool m pick h = .ok (mp, heap)) (loops : Nat → Loop)
    (input : Nat → Bytes) : (init mp heap loops input).Sound input :=
  ⟨MultiMachine.exclusive_init hnew, fun _ => ⟨nofun, rfl, rfl⟩⟩

/--
**Connections that share a pool do not interfere.** However the reads, the steps of the pool and
the handlers of all connections interleave, every connection passes on packs of its own stream
only: the bodies of the frames that the stream begins with, in order and each once, and all of them
by the time its `Decode` fails.
-/
theorem connections_do_not_interfere {m : AList fun _ : Int => UInt64}
    {pick : Int → Nat → Option Nat} {h heap : Heap} {mp : MultiSizeRingPool}
    (hnew : newMultiSizeRingPool m pick h = .ok (mp, heap)) (loops : Nat → Loop)
    (input : Nat → Bytes) (acts : List ReaderAct) :
    EachState step (fun s => ∀ c, (s.conns c).Isolated (input c)) (init mp heap loops input)
      acts :=
  eachState_of_remaining (I := fun s _ => s.Sound input)
    (fun _ _ _ _ hs hstep => sound_step hs hstep) (fun _ _ hs c => (hs.conn c).isolated)
    (sound_init hnew loops input)

/--
Two connections and a pool of one buffer. The second loses the race for it and takes a fallback
buffer; both bodies arrive in turns.
-/
def twoConnections : List ReaderAct :=
  [.header 0, .header 1, .tick 0, .tick 1, .tick 0, .tick 1, .tick 0, .tick 1, .tick 0,
    .returned 0, .fill 0 1, .tick 1, .tick 1, .tick 1, .tick 1, .returned 1, .fill 1 1,
    .handle 0 true, .fill 1 1, .tick 0, .handle 1 true]

theorem two_connections_do_not_interfere :
    ∃ mp heap, newMultiSizeRingPool (AList.singleton (2 : Int) (1 : UInt64)) (fun _ _ => none)
        ⟨0, fun _ => []⟩ = .ok (mp, heap) ∧
      EachState step
        (fun s => ∀ c, (s.conns c).Isolated (if c = 0 then [0, 0, 0, 1, 7] else [0, 0, 0, 2, 8, 9]))
        (init mp heap (fun _ => .worker)
          fun c => if c = 0 then [0, 0, 0, 1, 7] else [0, 0, 0, 2, 8, 9]) twoConnections := by
  have hnew : newMultiSizeRingPool (AList.singleton (2 : Int) (1 : UInt64)) (fun _ _ => none)
    ⟨0, fun _ => []⟩ = .ok (_, _) := rfl
  exact ⟨_, _, hnew, connections_do_not_interfere hnew _ _ _⟩

example : ((newMultiSizeRingPool (AList.singleton (2 : Int) (1 : UInt64)) (fun _ _ => none)
    ⟨0, fun _ => []⟩).toOption.bind fun r =>
      (run step (init r.1 r.2 (fun _ => .worker)
        fun c => if c = 0 then [0, 0, 0, 1, 7] else [0, 0, 0, 2, 8, 9]) twoConnections).map
        fun s => ((s.conns 0).packs, (s.conns 1).packs)) = some ([[7]], [[8, 9]]) := by
  decide +kernel

end Readers

end FabricaNet.Frame
