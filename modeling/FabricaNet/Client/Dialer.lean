import Mathlib.Data.List.Range
import Mathlib.Data.Nat.Find
import FabricaNet.Internal.Listener
import FabricaNet.Kcp.Config

/-!
# The dialers of the client

`DialogID` of `client/option.go`, and the `Dial` functions of `tcp/client`, `websocket/client` and
`kcp/client`. What the network answers is an argument, so a statement about every `Net` is one about
every way a dial can fail.

`Dial` of the KCP client has a deferred function that closes what has been opened, guarded by the
variable `err`. The results of `Dial` are unnamed, and the loop that opens the streams returns its
error without assigning the variable. So the function finds nil there, and closes nothing
(`dial_leaksNothing_iff`).
-/

namespace FabricaNet

open Go Internal

/-- `DialogID`. -/
def Client.dialogID (id index : Int64) : UInt64 := id.toUInt64 * 100 + index.toUInt64

namespace Client

/-- Something that `Dial` can open. A session owns the connection it is built on. -/
inductive Handle where
  /-- the connection has the number 0, the stream that is opened `i`-th the number `i` -/
  | conn (n : Nat)
  | session
deriving DecidableEq, Repr

/-- What the calls of a dialer return: an error or nil. -/
structure Net where
  /-- `net.ResolveTCPAddr`, or `url.Parse` -/
  resolve : Option Err
  /-- `net.DialTCP`, `DialContext`, or `dial` of the KCP dialer -/
  connect : Option Err
  smuxClient : Option Err
  /-- whether `make` finds memory for so many carriers -/
  makes : Nat → Bool
  /-- the `i`-th call of `session.OpenStream`, from 1 on -/
  openStream : Nat → Option Err
  close : Handle → Option Err

/-- Nothing fails. -/
def Net.healthy : Net :=
  { resolve := none, connect := none, smuxClient := none, makes := fun _ => true,
    openStream := fun _ => none, close := fun _ => none }

/-- The carrier of a connection for the dialog with this index. -/
def carrier (cliID : Int64) (i : Nat) : ConnCarrier :=
  newConnCarrier (dialogID cliID (Int64.ofNat i)) i i

/-- What `ConnCarrier.Close` closes. -/
def closeCarrier (c : ConnCarrier) : List Handle :=
  match c.codec, c.conn with
  | some _, some n => [.conn n]
  | _, _ => []

end Client

open Client

/-! ## TCP and WebSocket -/

/-- `Dial` of the TCP client. -/
def Tcp.dial (cliID : Int64) (target : String) (net : Net) : Except Err (List ConnCarrier) :=
  match net.resolve with
  | some err => .error (.wrap err ("resolve addr failed. addr=" ++ target))
  | none =>
    match net.connect with
    | some err => .error (.wrap err ("connect failed. addr=" ++ target))
    | none => .ok [carrier cliID 0]

/-- `Dial` of the WebSocket client. -/
def WebSocket.dial (cliID : Int64) (target : String) (net : Net) :
    Except Err (List ConnCarrier) :=
  match net.resolve with
  | some err => .error (.wrap err ("parse url failed. url=" ++ target))
  | none =>
    match net.connect with
    | some err => .error (.wrap err ("connect failed. url=" ++ target))
    | none => .ok [carrier cliID 0]

/-! ## KCP -/

namespace Kcp

/-- What `Dial` returns, or `none` if it panics, and what it has opened and closed by then. -/
structure Dialed where
  ret : Option (Except Err (List ConnCarrier))
  opened : List Handle
  closed : List Handle

/-- The loop of `Dial`, from the `i`-th stream on, with `k` turns to go. -/
def openStreams (cliID : Int64) (net : Net) :
    Nat → Nat → List ConnCarrier → Option Err × List ConnCarrier
  | 0, _, carriers => (none, carriers)
  | k + 1, i, carriers =>
    match net.openStream i with
    | some streamErr =>
      (some (.wrap streamErr ("create smux stream " ++ toString i ++ " failed")), carriers)
    | none => openStreams cliID net k (i + 1) (carriers ++ [carrier cliID i])

/-- The deferred function of `Dial`: what it closes. -/
def cleanup (err : Option Err) (carriers : List ConnCarrier) : List Handle :=
  match err with
  | none => []
  | some _ => carriers.flatMap closeCarrier ++ [.session]

/-- The number of streams. -/
def Conf.streams (conf : Conf) : Nat := conf.smuxStreamSize.toInt.toNat

/-- `make([]internal.ConnCarrier, 0, SmuxStreamSize)` does not panic. -/
def Conf.Makes (conf : Conf) (net : Net) : Prop :=
  0 ≤ conf.smuxStreamSize ∧ net.makes conf.streams = true

instance (conf : Conf) (net : Net) : Decidable (conf.Makes net) := instDecidableAnd

/-- `Dial` of the KCP client. -/
def dial (conf : Conf) (cliID : Int64) (net : Net) : Dialed :=
  match net.connect with
  | some err => { ret := some (.error err), opened := [], closed := [] }
  | none =>
    if !conf.smux then { ret := some (.ok [carrier cliID 0]), opened := [.conn 0], closed := [] }
    else
      match net.smuxClient with
      | some err =>
        let err := match net.close (.conn 0) with
          | none => err
          | some closeErr => .join err (.wrap closeErr "close kcp connection failed")
        { ret := some (.error (.wrap err "create smux session failed"))
          opened := [.conn 0]
          closed := [.conn 0] }
      | none =>
        if conf.Makes net then
          -- the variable that the deferred function reads; nothing below assigns it
          let err : Option Err := none
          let (streamErr, carriers) := openStreams cliID net conf.streams 1 []
          { ret := some (match streamErr with
              | some wrapped => .error wrapped
              | none => .ok carriers)
            opened := .session :: carriers.flatMap closeCarrier
            closed := cleanup err carriers }
        -- the panic comes before the `defer`
        else { ret := none, opened := [.session], closed := [] }

/-- When `Dial` returns an error, what it has opened is closed. -/
def Dialed.LeaksNothing (d : Dialed) : Prop :=
  (∃ err, d.ret = some (.error err)) → ∀ h ∈ d.opened, h ∈ d.closed

/-! ### The loop -/

theorem flatMap_closeCarrier (cliID : Int64) (is : List Nat) :
    (is.map (carrier cliID)).flatMap closeCarrier = is.map .conn := by
  induction is with
  | nil => rfl
  | cons i is ih =>
    rw [List.map_cons, List.flatMap_cons, ih]
    rfl

/-- Every stream is opened. -/
theorem openStreams_of_ok {cliID : Int64} {net : Net} {k i : Nat} {carriers : List ConnCarrier}
    (h : ∀ j, i ≤ j → j < i + k → net.openStream j = none) :
    openStreams cliID net k i carriers =
      (none, carriers ++ (List.range' i k).map (carrier cliID)) := by
  induction k generalizing i carriers with
  | zero => simp [openStreams]
  | succ k ih =>
    rw [openStreams, h i (Nat.le_refl i) (by omega)]
    dsimp only
    rw [ih fun j hj hj' => h j (by omega) (by omega), List.range'_succ, List.map_cons,
      List.append_assoc, List.singleton_append]

/-- The first stream that cannot be opened ends the loop. -/
theorem openStreams_of_failed {cliID : Int64} {net : Net} {k i m : Nat} {err : Err}
    {carriers : List ConnCarrier} (hm : m < k)
    (h : ∀ j, i ≤ j → j < i + m → net.openStream j = none)
    (herr : net.openStream (i + m) = some err) :
    openStreams cliID net k i carriers =
      (some (.wrap err ("create smux stream " ++ toString (i + m) ++ " failed")),
        carriers ++ (List.range' i m).map (carrier cliID)) := by
  induction m generalizing k i carriers with
  | zero =>
    obtain ⟨k, rfl⟩ : ∃ k', k = k' + 1 := ⟨k - 1, by omega⟩
    rw [Nat.add_zero] at herr ⊢
    rw [openStreams, herr]
    simp
  | succ m ih =>
    obtain ⟨k, rfl⟩ : ∃ k', k = k' + 1 := ⟨k - 1, by omega⟩
    have hnext : i + (m + 1) = i + 1 + m := by omega
    rw [hnext] at herr ⊢
    rw [openStreams, h i (Nat.le_refl i) (by omega)]
    dsimp only
    rw [ih (by omega) (fun j hj hj' => h j (by omega) (by omega)) herr, List.range'_succ,
      List.map_cons, List.append_assoc, List.singleton_append]

/-! ### What is left open -/

/-- Every call before the streams has succeeded. -/
structure SessionUp (conf : Conf) (net : Net) : Prop where
  connect : net.connect = none
  smux : conf.smux = true
  smuxClient : net.smuxClient = none
  makes : conf.Makes net

/-- What happens before the streams. -/
theorem dial_cases (conf : Conf) (cliID : Int64) (net : Net) :
    (∃ err, dial conf cliID net = { ret := some (.error err), opened := [], closed := [] }) ∨
    (conf.smux = false ∧ dial conf cliID net =
      { ret := some (.ok [carrier cliID 0]), opened := [.conn 0], closed := [] }) ∨
    (∃ err, dial conf cliID net =
      { ret := some (.error err), opened := [.conn 0], closed := [.conn 0] }) ∨
    dial conf cliID net = { ret := none, opened := [.session], closed := [] } ∨
    SessionUp conf net := by
  unfold dial
  cases hconnect : net.connect with
  | some err => exact Or.inl ⟨err, rfl⟩
  | none =>
    cases hsmux : conf.smux with
    | false => exact Or.inr (Or.inl ⟨rfl, rfl⟩)
    | true =>
      cases hclient : net.smuxClient with
      | some err => exact Or.inr (Or.inr (Or.inl ⟨_, rfl⟩))
      | none =>
        by_cases hmakes : conf.Makes net
        · exact Or.inr (Or.inr (Or.inr (Or.inr ⟨hconnect, hsmux, hclient, hmakes⟩)))
        · exact Or.inr (Or.inr (Or.inr (Or.inl (if_neg hmakes))))

theorem dial_of_sessionUp {conf : Conf} {net : Net} (h : SessionUp conf net) (cliID : Int64) :
    dial conf cliID net =
      { ret := some (match (openStreams cliID net conf.streams 1 []).1 with
          | some wrapped => .error wrapped
          | none => .ok (openStreams cliID net conf.streams 1 []).2)
        opened := .session :: (openStreams cliID net conf.streams 1 []).2.flatMap closeCarrier
        closed := [] } := by
  unfold dial
  rw [h.connect, h.smux, h.smuxClient]
  exact if_pos h.makes

/-- The streams before the one that fails stay open, and so does the session. -/
theorem dial_of_openStream_failed {conf : Conf} {net : Net} (h : SessionUp conf net)
    (cliID : Int64) {i : Nat} {err : Err} (hi : 1 ≤ i) (hn : i ≤ conf.streams)
    (hbefore : ∀ j, 1 ≤ j → j < i → net.openStream j = none) (herr : net.openStream i = some err) :
    dial conf cliID net =
      { ret := some (.error (.wrap err ("create smux stream " ++ toString i ++ " failed")))
        opened := .session :: (List.range' 1 (i - 1)).map .conn
        closed := [] } := by
  obtain ⟨m, rfl⟩ : ∃ m, i = 1 + m := ⟨i - 1, by omega⟩
  rw [dial_of_sessionUp h, openStreams_of_failed (by omega) hbefore herr, List.nil_append,
    flatMap_closeCarrier, Nat.add_sub_cancel_left]

/-- Some stream fails to open. -/
def StreamFails (conf : Conf) (net : Net) : Prop :=
  ∃ i, 1 ≤ i ∧ i ≤ conf.streams ∧ net.openStream i ≠ none

theorem StreamFails.first {conf : Conf} {net : Net} (h : StreamFails conf net) :
    ∃ i err, 1 ≤ i ∧ i ≤ conf.streams ∧ (∀ j, 1 ≤ j → j < i → net.openStream j = none) ∧
      net.openStream i = some err := by
  classical
  obtain ⟨hi, hn, hne⟩ := Nat.find_spec h
  obtain ⟨err, herr⟩ := Option.ne_none_iff_exists'.mp hne
  refine ⟨Nat.find h, err, hi, hn, fun j hj hlt => ?_, herr⟩
  by_contra hj'
  exact Nat.find_min h hlt ⟨hj, by omega, hj'⟩

/-- Without such a stream every carrier is returned. -/
theorem dial_of_not_streamFails {conf : Conf} {net : Net} (h : SessionUp conf net) (cliID : Int64)
    (hok : ¬StreamFails conf net) :
    (dial conf cliID net).ret = some (.ok ((List.range' 1 conf.streams).map (carrier cliID))) := by
  have hall : ∀ j, 1 ≤ j → j < 1 + conf.streams → net.openStream j = none := by
    intro j hj hlt
    by_contra hj'
    exact hok ⟨j, hj, by omega, hj'⟩
  rw [dial_of_sessionUp h, openStreams_of_ok hall, List.nil_append]

/-- **`Dial` leaks nothing exactly when no stream fails to open.** -/
theorem dial_leaksNothing_iff (conf : Conf) (cliID : Int64) (net : Net) :
    (dial conf cliID net).LeaksNothing ↔
      ¬(SessionUp conf net ∧ StreamFails conf net) := by
  constructor
  · rintro h ⟨hup, hfail⟩
    obtain ⟨i, err, hi, hn, hbefore, herr⟩ := hfail.first
    rw [dial_of_openStream_failed hup cliID hi hn hbefore herr] at h
    exact List.not_mem_nil (h ⟨_, rfl⟩ .session List.mem_cons_self)
  · rintro h ⟨err, herr⟩ handle hopened
    rcases dial_cases conf cliID net with ⟨err', hd⟩ | ⟨-, hd⟩ | ⟨err', hd⟩ | hd | hup
    · rw [hd] at hopened
      cases hopened
    · rw [hd] at herr
      cases herr
    · rw [hd] at hopened ⊢
      exact hopened
    · rw [hd] at herr
      cases herr
    · rw [dial_of_not_streamFails hup cliID fun hfail => h ⟨hup, hfail⟩] at herr
      cases herr

/-- The second of the four streams of the default configuration cannot be opened. -/
def secondFails : Net :=
  { Net.healthy with openStream := fun i => if i = 2 then some errEOF else none }

theorem dial_leaks_session :
    validate (fun _ => "") Conf.default = none ∧ Conf.default.smux = true ∧
    (dial Conf.default 7 secondFails).ret =
      some (.error (.wrap errEOF "create smux stream 2 failed")) ∧
    (dial Conf.default 7 secondFails).opened = [.session, .conn 1] ∧
    (dial Conf.default 7 secondFails).closed = [] ∧
    ¬(dial Conf.default 7 secondFails).LeaksNothing := by
  refine ⟨validate_eq_none_iff.mpr valid_default, rfl, rfl, rfl, rfl, fun h => ?_⟩
  exact List.not_mem_nil (h ⟨_, rfl⟩ .session List.mem_cons_self)

end Kcp

/-! ## The indexes of the dialogs -/

namespace Client

/-- A dialer, with the configuration it reads. -/
inductive Transport where
  | tcp
  | webSocket
  | kcp (conf : Kcp.Conf)

namespace Transport

/-- The constructor of the dialer returns no error. -/
def Accepted (text : Duration → String) : Transport → Prop
  | .tcp => True
  | .webSocket => True
  | .kcp conf => Kcp.validate text conf = none

/-- What `Dial` returns, or `none` if it panics. -/
def dial (t : Transport) (cliID : Int64) (target : String) (net : Net) :
    Option (Except Err (List ConnCarrier)) :=
  match t with
  | .tcp => some (Tcp.dial cliID target net)
  | .webSocket => some (WebSocket.dial cliID target net)
  | .kcp conf => (Kcp.dial conf cliID net).ret

/-- The dialer opens smux streams. -/
def usesSmux : Transport → Bool
  | .tcp => false
  | .webSocket => false
  | .kcp conf => conf.smux

/-- The first index. -/
def first (t : Transport) : Nat := if t.usesSmux then 1 else 0

/-- The last index. -/
def last : Transport → Nat
  | .tcp => 0
  | .webSocket => 0
  | .kcp conf => if conf.smux then conf.streams else 0

/-- The indexes of the dialogs, in the order of the carriers. -/
def indexes (t : Transport) : List Nat := List.range' t.first (t.last + 1 - t.first)

theorem mem_indexes {t : Transport} {i : Nat} : i ∈ t.indexes ↔ t.first ≤ i ∧ i ≤ t.last := by
  rw [indexes, List.mem_range'_1]
  omega

/-- **`Dial` makes one carrier for each index.** -/
theorem eq_of_dial_eq_ok {t : Transport} {cliID : Int64} {target : String} {net : Net}
    {carriers : List ConnCarrier} (h : t.dial cliID target net = some (.ok carriers)) :
    carriers = t.indexes.map (carrier cliID) := by
  cases t with
  | tcp =>
    simp only [dial, Tcp.dial] at h
    split at h
    · cases h
    · split at h <;> cases h
      rfl
  | webSocket =>
    simp only [dial, WebSocket.dial] at h
    split at h
    · cases h
    · split at h <;> cases h
      rfl
  | kcp conf =>
    simp only [dial] at h
    rcases Kcp.dial_cases conf cliID net with ⟨err, hd⟩ | ⟨hsmux, hd⟩ | ⟨err, hd⟩ | hd | hup
    · rw [hd] at h
      cases h
    · rw [hd] at h
      cases h
      simp [indexes, first, last, usesSmux, hsmux]
    · rw [hd] at h
      cases h
    · rw [hd] at h
      cases h
    · by_cases hfail : Kcp.StreamFails conf net
      · obtain ⟨i, err, hi, hn, hbefore, herr⟩ := hfail.first
        rw [Kcp.dial_of_openStream_failed hup cliID hi hn hbefore herr] at h
        cases h
      · rw [Kcp.dial_of_not_streamFails hup cliID hfail] at h
        cases h
        simp [indexes, first, last, usesSmux, hup.smux]

end Transport

end Client

end FabricaNet
