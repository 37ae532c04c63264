import FabricaNet.Client.DialogId
import FabricaNet.Go.Range

/-!
# The dialogs of a client

`BaseClient` of `internal/client.go`. `Start` dials and stores one dialog per carrier, under the id
that the dialer has given the carrier. `DefaultDialog` looks for the index 0, which a KCP client
with smux does not use (`started_dialogs_iff`).
-/

namespace FabricaNet.Internal

open Go Client

/-- `Dialog`. -/
structure Dialog where
  id : UInt64
  cliID : Int64
  conn : Option Nat
  codec : Option Nat
deriving DecidableEq, Repr

/-- `newDialog`. -/
def newDialog (id : UInt64) (cid : Int64) (carrier : ConnCarrier) : Dialog :=
  { id := id, cliID := cid, conn := carrier.conn, codec := carrier.codec }

/-- `BaseClient`. -/
structure BaseClient where
  id : Int64
  dialer : Transport
  target : String
  dialogMap : SyncMap UInt64 Dialog

/-- `NewBaseClient`, as the constructors of the clients call it: with their own id. -/
def newBaseClient (id : Int64) (dialer : Transport) (target : String) : BaseClient :=
  { id := id, dialer := dialer, target := target, dialogMap := SyncMap.empty }

namespace BaseClient

/-- The body of the loop of `Start`, up to the goroutine of the dialog. -/
def addDialog (c : BaseClient) (wrapper : ConnCarrier) : BaseClient :=
  { c with dialogMap := c.dialogMap.store wrapper.id (newDialog wrapper.id c.id wrapper) }

/--
`Start`: the carriers, and the client after the loop. No dialog has ended: when one does, the
function passed to `GoAndStop` deletes its entry. `none`: `Dial` panics.
-/
def start (c : BaseClient) (net : Net) : Option (Except Err (List ConnCarrier × BaseClient)) :=
  (c.dialer.dial c.id c.target net).map fun
    | .error err => .error (.wrap err ("connect failed. target=" ++ c.target))
    | .ok wrappers => .ok (wrappers, wrappers.foldl addDialog c)

/-- `Dialog`. -/
def dialog (c : BaseClient) (dialogID : UInt64) : Option Dialog := c.dialogMap.load dialogID

/-- `DefaultDialog`. -/
def defaultDialog (c : BaseClient) : Option Dialog := c.dialog (dialogID c.id 0)

/-- The map has one entry for each carrier, with the dialog built for it, and no other. -/
def OneEach (c : BaseClient) (wrappers : List ConnCarrier) : Prop :=
  (∀ w ∈ wrappers, c.dialog w.id = some (newDialog w.id c.id w)) ∧
    c.dialogMap.toList.length = wrappers.length

@[simp] theorem id_addDialog (c : BaseClient) (w : ConnCarrier) : (c.addDialog w).id = c.id := rfl

theorem id_foldl_addDialog (c : BaseClient) (ws : List ConnCarrier) :
    (ws.foldl addDialog c).id = c.id := by
  induction ws generalizing c with
  | nil => rfl
  | cons w ws ih => rw [List.foldl_cons, ih, id_addDialog]

theorem dialog_addDialog (c : BaseClient) (w : ConnCarrier) (id : UInt64) :
    (c.addDialog w).dialog id =
      if id = w.id then some (newDialog w.id c.id w) else c.dialog id :=
  SyncMap.load_store ..

/-- An id that no carrier has is not touched by the loop. -/
theorem dialog_foldl_of_ne {c : BaseClient} {ws : List ConnCarrier} {id : UInt64}
    (h : ∀ w ∈ ws, w.id ≠ id) : (ws.foldl addDialog c).dialog id = c.dialog id := by
  induction ws generalizing c with
  | nil => rfl
  | cons w ws ih =>
    rw [List.foldl_cons, ih fun v hv => h v (List.mem_cons_of_mem w hv), dialog_addDialog,
      if_neg (h w List.mem_cons_self).symm]

/-- Carriers with distinct ids, none of which is in the map, get one entry each. -/
theorem oneEach_foldl (c : BaseClient) (ws : List ConnCarrier) (hnodup : (ws.map (·.id)).Nodup)
    (hfree : ∀ w ∈ ws, c.dialog w.id = none) :
    (∀ w ∈ ws, (ws.foldl addDialog c).dialog w.id = some (newDialog w.id c.id w)) ∧
      (ws.foldl addDialog c).dialogMap.toList.length =
        c.dialogMap.toList.length + ws.length := by
  induction ws generalizing c with
  | nil => exact ⟨by simp, rfl⟩
  | cons w ws ih =>
    rw [List.map_cons, List.nodup_cons] at hnodup
    have hne : ∀ v ∈ ws, v.id ≠ w.id := fun v hv heq =>
      hnodup.1 (List.mem_map.mpr ⟨v, hv, heq⟩)
    have hfree' : ∀ v ∈ ws, (c.addDialog w).dialog v.id = none := by
      intro v hv
      rw [dialog_addDialog, if_neg (hne v hv)]
      exact hfree v (List.mem_cons_of_mem w hv)
    obtain ⟨hload, hlen⟩ := ih _ hnodup.2 hfree'
    refine ⟨fun v hv => ?_, ?_⟩
    · rcases List.mem_cons.mp hv with rfl | hv
      · rw [List.foldl_cons, dialog_foldl_of_ne hne, dialog_addDialog, if_pos rfl]
      · exact hload v hv
    · have hstore : (c.addDialog w).dialogMap.toList.length = c.dialogMap.toList.length + 1 :=
        SyncMap.length_store_of_none (hfree w List.mem_cons_self) _
      rw [List.foldl_cons, hlen, hstore, List.length_cons]
      omega

/-- There is an entry under an id exactly if a carrier has it. -/
theorem isSome_dialog_foldl_iff {c : BaseClient} {ws : List ConnCarrier} {id : UInt64}
    (hload : ∀ w ∈ ws, (ws.foldl addDialog c).dialog w.id = some (newDialog w.id c.id w))
    (hfree : c.dialog id = none) :
    ((ws.foldl addDialog c).dialog id).isSome ↔ ∃ w ∈ ws, w.id = id := by
  constructor
  · intro hsome
    by_contra hnot
    have hne : ∀ w ∈ ws, w.id ≠ id := fun w hw heq => hnot ⟨w, hw, heq⟩
    rw [dialog_foldl_of_ne hne, hfree] at hsome
    cases hsome
  · rintro ⟨w, hw, rfl⟩
    rw [hload w hw]
    rfl

/-- The carriers of one dialer have distinct ids. -/
theorem nodup_ids (t : Transport) (id : Int64) :
    ((t.indexes.map (carrier id)).map (·.id)).Nodup := by
  rw [List.map_map]
  refine List.Nodup.map_on (fun i hi i' hi' heq => ?_) (List.nodup_range' ..)
  exact dialogID_index_inj (Transport.lt_of_mem_indexes hi) (Transport.lt_of_mem_indexes hi') heq

/-- The index 0 is one of the indexes unless smux is used. -/
theorem zero_mem_indexes_iff {t : Transport} : 0 ∈ t.indexes ↔ t.usesSmux = false := by
  rw [Transport.mem_indexes, Transport.first]
  cases t.usesSmux <;> simp

/-- A carrier with the id of the index 0 has the index 0. -/
theorem exists_carrier_zero_iff {t : Transport} {id : Int64} :
    (∃ w ∈ t.indexes.map (carrier id), w.id = dialogID id 0) ↔ 0 ∈ t.indexes := by
  constructor
  · rintro ⟨w, hw, heq⟩
    obtain ⟨i, hi, rfl⟩ := List.mem_map.mp hw
    have hi0 : i = 0 := dialogID_index_inj (Transport.lt_of_mem_indexes hi) (by decide) heq
    exact hi0 ▸ hi
  · intro hzero
    exact ⟨carrier id 0, List.mem_map_of_mem hzero, rfl⟩

/--
**After `Start` there is one dialog per carrier, and the default dialog exists exactly when the
dialer does not use smux.**
-/
theorem started_dialogs_iff (t : Transport) (id : Int64) (target : String) (net : Net)
    (wrappers : List ConnCarrier) (c : BaseClient)
    (hstart : (newBaseClient id t target).start net = some (.ok (wrappers, c))) :
    c.OneEach wrappers ∧ (c.defaultDialog.isSome ↔ t.usesSmux = false) := by
  obtain ⟨r, hdial, hr⟩ := Option.map_eq_some_iff.mp hstart
  cases r with
  | error err => cases hr
  | ok ws =>
    cases hr
    have hws : wrappers = t.indexes.map (carrier id) := Transport.eq_of_dial_eq_ok hdial
    have hid := id_foldl_addDialog (newBaseClient id t target) wrappers
    have hfree : ∀ i, (newBaseClient id t target).dialog i = none := SyncMap.load_empty
    have hone := oneEach_foldl (newBaseClient id t target) wrappers
      (by rw [hws]; exact nodup_ids t id) (fun w _ => hfree w.id)
    refine ⟨⟨fun w hw => ?_, ?_⟩, ?_⟩
    · rw [hid]
      exact hone.1 w hw
    · rw [hone.2]
      exact Nat.zero_add _
    · rw [defaultDialog, hid, isSome_dialog_foldl_iff hone.1 (hfree _), hws,
        ← zero_mem_indexes_iff]
      exact exists_carrier_zero_iff

/-- A TCP client has its default dialog. -/
theorem started_dialogs_tcp :
    ∃ c, (newBaseClient 7 .tcp "127.0.0.1:7001").start Net.healthy =
        some (.ok ([carrier 7 0], c)) ∧
      c.OneEach [carrier 7 0] ∧ c.defaultDialog.isSome := by
  refine ⟨_, rfl, ?_⟩
  have h := started_dialogs_iff .tcp 7 "127.0.0.1:7001" Net.healthy _ _ rfl
  exact ⟨h.1, h.2.mpr rfl⟩

/-- A KCP client with the default configuration has four dialogs, and no default dialog. -/
theorem default_dialog_missing :
    Transport.Accepted (fun _ => "") (.kcp Kcp.Conf.default) ∧
    ∃ ws c, (newBaseClient 7 (.kcp Kcp.Conf.default) "127.0.0.1:7001").start Net.healthy =
      some (.ok (ws, c)) ∧ ws.length = 4 ∧ c.defaultDialog = none := by
  exact ⟨Kcp.validate_eq_none_iff.mpr Kcp.valid_default, _, _, rfl, rfl, by decide⟩

end BaseClient

end FabricaNet.Internal
