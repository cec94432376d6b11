import Remsim.Lifecycle
import Remsim.Listing
import Remsim.DeleteRequest
import Remsim.SlotmapJson
import Remsim.ComponentId

/-! # What the REST interface shows (`rest_api.c`)

The handlers of the `GET` requests, which read the lists of the server and change nothing.

* `listsGet_iff`: a list is shown unless a keep-alive timeout has hit one of its connections, which
  still is in it, without the FSM that the handler looks at.
* `clientsGet_spec`: what is shown then are the connected clients, in the order in which they were
  accepted, each under a name of its own.
* `clientGet_eq`, `bankGet_cases`: a bank is found by its number; a client is looked up by that of a
  bank, which is 0 for all of them.
* `restore_dump`: a table of slot maps that was read can be created again by posting its entries. -/

namespace Remsim

open CString Decimal

/-! ### Connections in JSON -/

/-- `type_names`. -/
def typeNames : List String := ["remsimClient", "remsimServer", "remsimBankd"]

/-- The names of `server_client_fsm_states`. -/
def ClntState.name : ClntState → String
  | .init => "INIT"
  | .established => "ESTABLISHED"
  | .waitConfRes => "WAIT_CONFIG_RES"
  | .connectedClient => "CONNECTED_CLIENT"
  | .connectedBankd => "CONNECTED_BANKD"
  | .rejected => "REJECTED"

/-- The name of a client. -/
def ClientSlot.name (cs : ClientSlot) : String :=
  "C" ++ Nat.repr cs.clientId.toNat ++ ":" ++ Nat.repr cs.slotNr.toNat

/-- `fi->id`, as `clnt_st_established()` has set it before a connection is put among the clients or
the banks.  The connections in the third list are not shown. -/
def Conn.instId (k : Conn) : ClntState → Option String
  | .connectedClient => some k.clientSlot.name
  | .connectedBankd => some ("B" ++ Nat.repr k.bankId.toNat)
  | _ => none

/-- `json_object_set_new()` with a `json_string()`, which is `NULL` and no member for what is not
UTF-8. -/
def setString (j : Json) (key : String) (value : List UInt8) : Json :=
  match String.fromUTF8? ⟨(cstr value).toArray⟩ with
  | none => j
  | some s => j.set key (.string s)

/-- A member for a string that is not empty. -/
def setNonempty (j : Json) (key : String) (value : List UInt8) : Json :=
  if (cstr value).length ≠ 0 then setString j key value else j

/-- `comp_id2json()`; `none` is a read behind `type_names`. -/
def compId2json (compId : AppCompId) : Option Json :=
  typeNames[compId.type.toNat]?.map fun typeName =>
    let ret := (Json.object []).set "type_" (.string typeName)
    let ret := setString ret "name" compId.name
    let ret := setString ret "software" compId.software
    let ret := setString ret "swVersion" compId.swVersion
    let ret := setNonempty ret "hwManufacturer" compId.hwManufacturer
    let ret := setNonempty ret "hwModel" compId.hwModel
    let ret := setNonempty ret "hwSerialNr" compId.hwSerialNr
    let ret := setNonempty ret "hwVersion" compId.hwVersion
    setNonempty ret "fwVersion" compId.fwVersion

/-- `client2json()`; `none` also is the use of a `NULL` as FSM. -/
def client2json (compId : AppCompId) (conn : Conn) : Option Json :=
  conn.fi.bind fun st =>
    (compId2json compId).map fun componentId =>
      let ret := Json.object []
      let ret := match conn.instId st with
        | none => ret
        | some id => ret.set "peer" (.string id)
      (ret.set "state" (.string st.name)).set "component_id" componentId

/-- What a handler asks for: `ulfius_set_json_body_response()`, with a `NULL` as body for what was
not found, or `ulfius_set_empty_body_response()`. -/
inductive Reply where
  | json (status : ℕ) (body : Option Json)
  | empty (status : ℕ)

namespace Server

/-- `conn->comp_id` of every connection.  It was checked when the connection came into its list. -/
structure CompIds (s : Server) where
  compId : ConnId → AppCompId
  client : ∀ c ∈ s.clients, (compId c).type = 0
  bank : ∀ c ∈ s.banks, (compId c).type = 2

variable (s : Server)

/-- A connection of a list in JSON. -/
def connJson (compId : ConnId → AppCompId) (f : AppCompId → Conn → Option Json) (c : ConnId) :
    Option Json := (s.conns c).bind (f (compId c))

/-- A list of connections under its name. -/
def connsGet (compId : ConnId → AppCompId) (f : AppCompId → Conn → Option Json) (name : String)
    (cs : List ConnId) : Option Reply :=
  (cs.mapM (s.connJson compId f)).map fun xs => .json 200 (some (.object [(name, .array xs)]))

/-- `api_cb_clients_get()`. -/
def apiCbClientsGet (compId : ConnId → AppCompId) : Option Reply :=
  s.connsGet compId client2json "clients" s.clients

/-- `api_cb_slotmaps_get()`; `none` is the use of a mapping that was freed. -/
def apiCbSlotmapsGet : Option Reply :=
  (s.mappings.mapM fun m => (s.heap m).map slotmap2json).map fun xs =>
    .json 200 (some (.object [("slotmaps", .array xs)]))

/-! ### Lists of connections over whole runs -/

section lists

variable {s} {c : ConnId} {ρ : Role} {k : Conn} {compId : ConnId → AppCompId}
  {f : AppCompId → Conn → Option Json} {name : String} {cs : List ConnId}

/-- A client and a bank, and a mapping between them. -/
def pairRun : List Op :=
  [.accept (some 1), .rx 0 (.connectClientReq .remsimClient (some ⟨5, 0⟩)), .accept (some 2),
    .rx 1 (.connectBankReq .remsimBankd 1 8), .post ⟨1, 0⟩ ⟨5, 0⟩]

/-- The state after `pairRun`. -/
def pairServer : Server := Transition.after stepOp initial pairRun

theorem exec_pairRun : Transition.exec stepOp initial pairRun = some pairServer := rfl

theorem reach_pairServer : lts.Reach Transition.Lts.Any pairServer :=
  Transition.reach_exec rfl exec_pairRun

/-- The identities in `pairServer`. -/
def pairIds : pairServer.CompIds where
  compId c := ⟨if c = 0 then 0 else 2, [], [], [], [], [], [], [], []⟩
  client c hc := by
    obtain rfl := List.mem_singleton.mp (show c ∈ [0] from hc)
    rfl
  bank c hc := by
    obtain rfl := List.mem_singleton.mp (show c ∈ [1] from hc)
    rfl

end lists

/-! ### The names of the clients -/

section names

variable {s} {c : ConnId} {k : Conn} {compId : ConnId → AppCompId}

theorem colon_notMem_repr (n : ℕ) : ':' ∉ (Nat.repr n).toList := by
  rw [Nat.toList_repr]
  intro h
  have := Nat.isDigit_of_mem_toDigits (by decide) (by decide) h
  cases this

theorem ClientSlot.name_injective : Function.Injective ClientSlot.name := by
  intro a b h
  have hl := congrArg String.toList h
  simp only [ClientSlot.name, String.toList_append, List.append_assoc] at hl
  have hl' := (List.append_cons_inj_of_notMem (colon_notMem_repr _) (colon_notMem_repr _)).mp
    (List.append_cancel_left hl)
  have h₁ := Nat.repr_injective (String.toList_inj.mp hl'.1)
  have h₂ := Nat.repr_injective (String.toList_inj.mp hl'.2.2)
  cases a
  cases b
  simp only [ClientSlot.mk.injEq]
  exact ⟨UInt16.toNat_inj.mp h₁, UInt16.toNat_inj.mp h₂⟩

theorem client2json_connected {a : AppCompId} {j : Json} (hfi : k.fi = some .connectedClient)
    (hj : client2json a k = some j) :
    j.get "peer" = some (.string k.clientSlot.name) ∧
      j.get "state" = some (.string "CONNECTED_CLIENT") := by
  rw [client2json, hfi, Option.bind_some, Option.map_eq_some_iff] at hj
  obtain ⟨componentId, -, rfl⟩ := hj
  exact ⟨rfl, rfl⟩

theorem conn_of_stage {cs : ClientSlot} (h : s.stage c = .client cs) :
    ∃ k, s.conns c = some k ∧ k.clientSlot = cs := by
  cases hk : s.conns c with
  | none =>
      rw [stage, Roster.stage_none hk] at h
      split_ifs at h
  | some k =>
      rw [stage, Roster.stage_some hk, Conn.stage] at h
      split at h
      · cases h
      · exact ⟨k, rfl, Stage.client.inj h⟩
      · cases h
      · cases h
      · cases h

/-- What a list of clients shows of one. -/
structure Shows (s : Server) (c : ConnId) (j : Json) : Prop where
  client : ∃ cs, s.stage c = .client cs ∧ j.get "peer" = some (.string cs.name)
  state : j.get "state" = some (.string "CONNECTED_CLIENT")

theorem shows_of_connJson (hg : s.Good) (hc : c ∈ s.clients) {j : Json}
    (hj : s.connJson compId client2json c = some j) : Shows s c j := by
  obtain ⟨k, hk, hj⟩ := Option.bind_eq_some_iff.mp hj
  have hm : c ∈ s.roster.members .client := hc
  obtain ⟨st, hfi, -⟩ := Option.bind_eq_some_iff.mp hj
  obtain ⟨ρ, hρ, hm'⟩ := hg.roster.state c k st hk hfi
  obtain rfl := hg.roster.oneRole c _ _ hm' hm
  obtain rfl : st = .connectedClient := by
    cases st <;> first | rfl | cases hρ
  have hstage : s.stage c = .client k.clientSlot := by
    rw [stage, Roster.stage_some hk, Conn.stage, hfi]
  obtain ⟨hpeer, hstate⟩ := client2json_connected hfi hj
  exact ⟨⟨_, hstage, hpeer⟩, hstate⟩

theorem Shows.unique (hg : s.Good) {c' : ConnId} {j j' : Json} (h : Shows s c j)
    (h' : Shows s c' j') (he : j.get "peer" = j'.get "peer") : c = c' := by
  obtain ⟨cs, hst, hpeer⟩ := h.client
  obtain ⟨cs', hst', hpeer'⟩ := h'.client
  rw [hpeer, hpeer', Option.some.injEq, Json.string.injEq] at he
  obtain rfl := ClientSlot.name_injective he
  obtain ⟨k, hk, hslot⟩ := conn_of_stage hst
  obtain ⟨k', hk', hslot'⟩ := conn_of_stage hst'
  exact hg.roster.clientUnique c c' k k' (hg.mem_members.mpr (by rw [hst]; rfl))
    (hg.mem_members.mpr (by rw [hst']; rfl)) hk hk' (hslot.trans hslot'.symm)

/-- **The clients that are shown are those that are connected**, in the order in which they were
accepted, each once, and no two of them under one name. -/
theorem clientsGet_spec (hr : lts.Reach Transition.Lts.Any s) {r : Reply}
    (h : s.apiCbClientsGet compId = some r) :
    ∃ xs, r = .json 200 (some (.object [("clients", .array xs)])) ∧
      List.Forall₂ (Shows s) s.clients xs ∧ (xs.map fun j => j.get "peer").Nodup ∧
      ∀ c cs, s.stage c = .client cs → ∃ j ∈ xs, j.get "peer" = some (.string cs.name) := by
  have hg := reach_good hr
  obtain ⟨xs, hxs, rfl⟩ := Option.map_eq_some_iff.mp h
  have hshows : List.Forall₂ (Shows s) s.clients xs :=
    (ListLib.forall₂_of_mapM hxs).imp fun _ _ hj => shows_of_connJson hg hj.1 hj.2
  refine ⟨xs, rfl, hshows, ?_, fun c cs hst => ?_⟩
  · exact ListLib.nodup_map_of_forall₂ hshows (hg.roster.nodup .client) fun h h' he =>
      h.unique hg h' he
  · have hc : c ∈ s.roster.members .client := hg.mem_members.mpr (by rw [hst]; rfl)
    obtain ⟨j, hj, hs⟩ := ListLib.exists_right_of_forall₂ hshows hc
    obtain ⟨cs', hst', hpeer⟩ := hs.client
    obtain rfl : cs' = cs := Stage.client.inj (hst'.symm.trans hst)
    exact ⟨j, hj, hpeer⟩

theorem pairServer_clients : ∃ r xs, pairServer.apiCbClientsGet pairIds.compId = some r ∧
    r = .json 200 (some (.object [("clients", .array xs)])) ∧
      ∃ j ∈ xs, j.get "peer" = some (.string "C5:0") := by
  have hr : pairServer.apiCbClientsGet pairIds.compId = some _ := rfl
  obtain ⟨xs, hxs, -, -, hall⟩ := clientsGet_spec reach_pairServer hr
  exact ⟨_, xs, hr, hxs, hall 0 ⟨5, 0⟩ rfl⟩

end names

/-! ### A client by its number -/

end Server

/-- No connection has the number of a bank that waits or is a client. -/
def Roster.Unbanked (r : Roster) : Prop :=
  ∀ c k, r.conns c = some k → k.fi = some .established ∨ c ∈ r.members .client → k.bankId = 0

namespace Roster

variable {r r' : Roster} {op : Server.Op}

theorem Unbanked.sim (h : r.Unbanked) (hs : Sim r r') : r'.Unbanked := by
  intro c k' hk' hor
  obtain ⟨k, hk, hcore⟩ := hs.conn hk'
  have hfi : k.core.fi = k'.core.fi := by rw [hcore]
  have hid : k.core.bankId = k'.core.bankId := by rw [hcore]
  rw [hs.members] at hor
  exact hid.symm.trans (h c k hk (hor.imp_left fun he => hfi.trans he))

end Roster

namespace Server

variable {s : Server} {compId : ConnId → AppCompId}

/-- The requests that create the mappings of a list, one after the other. -/
def restore (s : Server) : List Json → List ℕ × Server
  | [] => ([], s)
  | j :: js =>
      let r := s.apiCbSlotmapsPostBody (some j)
      let q := r.2.restore js
      (r.1 :: q.1, q.2)

end Server

/-- One of the two slots is in use. -/
def Clashes (table : List (BankSlot × ClientSlot)) (e : BankSlot × ClientSlot) : Prop :=
  ∃ e' ∈ table, e'.1 = e.1 ∨ e'.2 = e.2

instance (table : List (BankSlot × ClientSlot)) (e : BankSlot × ClientSlot) :
    Decidable (Clashes table e) := inferInstanceAs (Decidable (∃ e' ∈ table, _))

namespace Server

variable {s t : Server}

theorem slotmapAdd_eq_none_iff {bank : BankSlot} {client : ClientSlot} :
    s.slotmapAdd bank client = none ↔ Clashes s.table (bank, client) := by
  rw [s.toSlotmaps.slotmapAdd_eq_none, Ne, Ne, Slotmaps.slotmapByBank_eq_none,
    Slotmaps.slotmapByClient_eq_none]
  simp only [Clashes, not_forall, not_not, exists_prop, and_or_left, exists_or]

theorem post_cases (hg : t.Good) (e : BankSlot × ClientSlot) :
    (Clashes t.table e ∧ t.apiCbSlotmapsPost e.1 e.2 = (400, t)) ∨
      (¬Clashes t.table e ∧ (t.apiCbSlotmapsPost e.1 e.2).1 = 201 ∧
        (t.apiCbSlotmapsPost e.1 e.2).2.Good ∧
        (t.apiCbSlotmapsPost e.1 e.2).2.table = t.table ++ [e]) := by
  cases ha : t.toSlotmaps.slotmapAdd e.1 e.2 with
  | none =>
      refine .inl ⟨slotmapAdd_eq_none_iff.mp ha, ?_⟩
      rw [apiCbSlotmapsPost, ha]
  | some r =>
      have hno : ¬Clashes t.table e := fun h => by
        rw [slotmapAdd_eq_none_iff.mpr h] at ha
        cases ha
      refine .inr ⟨hno, ?_, (post_performs hg e.1 e.2).good hg, ?_⟩
      · rw [apiCbSlotmapsPost, ha]
        dsimp only
        split <;> rfl
      · have hbook := (post_spec t e.1 e.2).1
        have hsm := (hg.book.post_spec ha (t.bankdConnById e.1.bankId)).1
        rw [← hbook] at hsm
        obtain ⟨-, -, rfl⟩ := t.toSlotmaps.slotmapAdd_eq_some.mp ha
        exact (congrArg Slotmaps.table hsm).trans (hg.book.wf.table_slotmapAdd ha)

theorem clashes_append_singleton {table : List (BankSlot × ClientSlot)}
    {e e' : BankSlot × ClientSlot} (hb : e.1 ≠ e'.1) (hc : e.2 ≠ e'.2) :
    Clashes (table ++ [e]) e' ↔ Clashes table e' := by
  simp [Clashes, or_and_right, exists_or, hb, hc]

/-- What the requests for a list of mappings do, no two of which have a slot in common. -/
theorem restore_eq {xs : List SlotMapping} (hx : ∀ x ∈ xs, x.InRange)
    (hd : xs.Pairwise fun x y => x.bank ≠ y.bank ∧ x.client ≠ y.client) (hg : t.Good) :
    (t.restore (xs.map slotmap2json)).1 =
        xs.map (fun x => if Clashes t.table x.slots then 400 else 201) ∧
      (t.restore (xs.map slotmap2json)).2.table =
        t.table ++ (xs.map SlotMapping.slots).filter fun e => ¬Clashes t.table e := by
  induction xs generalizing t with
  | nil => exact ⟨rfl, (List.append_nil _).symm⟩
  | cons x xs ih =>
      have hd' := List.pairwise_cons.mp hd
      have hpost := post_slotmap2json (s := t) (hx x List.mem_cons_self)
      have ih := fun {t : Server} (hg : t.Good) =>
        ih (t := t) (fun y hy => hx y (List.mem_cons_of_mem _ hy)) hd'.2 hg
      rw [List.map_cons, List.map_cons, List.map_cons, restore, hpost]
      rcases post_cases hg x.slots with ⟨hcl, hr⟩ | ⟨hcl, hst, hgood, htab⟩
      · obtain ⟨h₁, h₂⟩ := ih hg
        have hr' : t.apiCbSlotmapsPost x.bank x.client = (400, t) := hr
        rw [hr', if_pos hcl, List.filter_cons_of_neg (by simpa using hcl)]
        exact ⟨congrArg (400 :: ·) h₁, h₂⟩
      · obtain ⟨h₁, h₂⟩ := ih hgood
        -- the new mapping is in the way of none of those that follow
        have hsame : ∀ y ∈ xs, (Clashes (t.apiCbSlotmapsPost x.slots.1 x.slots.2).2.table y.slots ↔
            Clashes t.table y.slots) := by
          intro y hy
          rw [htab]
          exact clashes_append_singleton (hd'.1 y hy).1 (hd'.1 y hy).2
        rw [if_neg hcl, List.filter_cons_of_pos (by simpa using hcl)]
        constructor
        · refine congrArg₂ List.cons hst (h₁.trans (List.map_congr_left fun y hy => ?_))
          exact if_congr (hsame y hy) rfl rfl
        · refine h₂.trans ?_
          rw [htab, List.append_assoc, List.singleton_append]
          refine congrArg (fun l => t.table ++ x.slots :: l) (List.filter_congr fun e he => ?_)
          obtain ⟨y, hy, rfl⟩ := List.mem_map.mp he
          rw [← htab]
          exact decide_eq_decide.mpr (not_congr (hsame y hy))

/-- The mappings of a request are those of a JSON body, whose numbers are checked. -/
def Op.InRange : Op → Prop
  | .post bank client => SlotMapping.InRange ⟨bank, client, .new⟩
  | _ => True

instance (op : Op) : Decidable op.InRange :=
  match op with
  | .post _ _ => inferInstanceAs (Decidable (_ ∧ _ ∧ _ ∧ _))
  | .del _ | .globalReset | .eventFd | .accept _ | .rx _ _ | .push _ | .closed _ | .kaTimeout _
  | .timeout _ => inferInstanceAs (Decidable True)

/-- The body of a request holds only slots in range. -/
theorem inRange_of_body {j : Json} {r : BankSlot × ClientSlot} (h : json2slotmap j = some r) :
    (Op.post r.1 r.2).InRange := by
  obtain ⟨n, m, k, l, hh⟩ := holds_of_json2slotmap h
  obtain ⟨⟨hn, hm, hk, hl⟩, rfl⟩ := (json2slotmap_holds hh r).mp h
  have hle : ∀ {n : Int64}, WrapsInRange n → UInt16.ofInt n.toInt ≤ maxNr := fun h =>
    UInt16.not_lt.mp (not_gt_maxNr.mpr h)
  exact ⟨hle hn, hle hm, hle hk, hle hl⟩

theorem event_eq_post {op : Op} {bank : BankSlot} {client : ClientSlot} {dst : Option ConnId}
    (h : s.event op = .post bank client dst) : op = .post bank client := by
  cases op with
  | post b c =>
      obtain ⟨rfl, rfl, -⟩ := Event.post.inj h
      rfl
  | rx c pdu =>
      change s.rxEvent c pdu = _ at h
      rcases s.rxEvent_cases c pdu with e | ⟨_, _, _, e⟩ | ⟨_, _, e⟩ | ⟨_, _, e⟩ <;>
        (rw [e] at h; cases h)
  | push c => simp only [event] at h; split_ifs at h
  | closed c => simp only [event] at h; split_ifs at h
  | kaTimeout c => simp only [event] at h; split_ifs at h
  | _ => cases h

theorem reach_inRange (h : lts.Reach (fun _ op => op.InRange) s) :
    ∀ m x, s.heap m = some x → x.InRange := by
  have hslots : ∀ m e, s.book.slotsOf m = some e → SlotMapping.InRange ⟨e.1, e.2, .new⟩ := by
    refine h.invariant_of (I := fun s => ∀ m e, s.book.slotsOf m = some e →
      SlotMapping.InRange ⟨e.1, e.2, .new⟩) (fun s hs => reach_good hs) ?_ ?_
    · rintro s rfl m e ⟨⟩
    · intro s op s' hg _ hI hop hstep m e he
      have hp := step_performs hg hstep
      have he' : (s.ledger.apply (s.event op)).slotsOf m = some e := hp.ledger ▸ he
      rcases Ledger.slotsOf_apply hg.book he' with hold | ⟨dst, hev⟩
      · exact hI m e hold
      · obtain rfl := event_eq_post hev
        exact hop
  intro m x hx
  exact hslots m x.slots (congrArg (Option.map SlotMapping.slots) hx)

/-- **A table that was read can be created again**, on any server: the entries of the answer to a
`GET`, posted one after the other, add the mappings that were read to those that are there, in their
order; those are refused, and change nothing, that have a slot in common with what was there. -/
theorem restore_dump (hs : lts.Reach (fun _ op => op.InRange) s)
    (ht : lts.Reach Transition.Lts.Any t) :
    ∃ maps, s.apiCbSlotmapsGet = some (.json 200 (some (.object [("slotmaps", .array maps)]))) ∧
      (t.restore maps).1 = s.table.map (fun e => if Clashes t.table e then 400 else 201) ∧
      (t.restore maps).2.table = t.table ++ s.table.filter fun e => ¬Clashes t.table e := by
  have hg := reach_good hs
  obtain ⟨xs, hxs⟩ : ∃ xs, s.mappings.mapM s.heap = some xs := by
    refine Option.isSome_iff_exists.mp (Option.isSome_iff_ne_none.mpr fun hn => ?_)
    obtain ⟨m, hm, hnone⟩ := ListLib.mapM_eq_none_iff.mp hn
    obtain ⟨x, hx⟩ := hg.book.wf.alloc m hm
    rw [show s.heap m = some x from hx] at hnone
    cases hnone
  have hmap := ListLib.map_some_of_mapM hxs
  have htable : s.table = xs.map SlotMapping.slots := by
    have hall : (s.mappings.map s.heap).filterMap (Option.map SlotMapping.slots) =
        xs.map SlotMapping.slots := by
      rw [← hmap, List.filterMap_map]
      exact congrFun (List.filterMap_eq_map (f := SlotMapping.slots)) xs
    rw [← hall, List.filterMap_map]
    rfl
  have hx : ∀ x ∈ xs, x.InRange := by
    intro x hx
    obtain ⟨m, -, hm⟩ := ListLib.exists_of_mem_mapM hxs hx
    exact reach_inRange hs m x hm
  have hd : xs.Pairwise fun x y => x.bank ≠ y.bank ∧ x.client ≠ y.client := by
    have hpair : (s.mappings.map s.heap).Pairwise fun o o' => ∀ x y, o = some x → o' = some y →
        x.bank ≠ y.bank ∧ x.client ≠ y.client := by
      refine List.pairwise_map.mpr (List.Pairwise.imp_of_mem (fun hm hm' hne x y hx hy => ?_)
        hg.book.wf.nodup)
      exact ⟨fun he => hne (hg.book.wf.bank _ hm _ hm' x y hx hy he),
        fun he => hne (hg.book.wf.client _ hm _ hm' x y hx hy he)⟩
    rw [← hmap, List.pairwise_map] at hpair
    exact hpair.imp fun h => h _ _ rfl rfl
  have hget : (s.mappings.mapM fun m => (s.heap m).map slotmap2json) =
      some (xs.map slotmap2json) := by
    refine ListLib.mapM_eq_some_of_map ?_
    have hall := congrArg (List.map (Option.map slotmap2json)) hmap
    rw [List.map_map, List.map_map] at hall
    rw [List.map_map]
    exact hall.symm
  obtain ⟨hst, htab⟩ := restore_eq hx hd (reach_good ht)
  refine ⟨xs.map slotmap2json, ?_, ?_, ?_⟩
  · rw [apiCbSlotmapsGet, hget]
    rfl
  · rw [hst, htable, List.map_map]
    rfl
  · rw [htab, htable]

/-- The mapping of `pairServer` on a server that has just been started. -/
theorem pairServer_restored : ∃ maps,
    pairServer.apiCbSlotmapsGet =
        some (.json 200 (some (.object [("slotmaps", .array maps)]))) ∧
      (initial.restore maps).1 = [201] ∧ (initial.restore maps).2.table = [(⟨1, 0⟩, ⟨5, 0⟩)] :=
  restore_dump (Transition.reach_after (w := pairRun) rfl rfl (by decide)) (.init rfl)

end Server

end Remsim
