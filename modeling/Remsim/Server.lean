import Remsim.Rspro

/-! # The server's connections and slot maps (`rspro_server.c`)

The state of `remsim-server` and the functions of its main thread.  A `struct rspro_client_conn`
is a heap object named by a `ConnId`; `conns` is the heap of connections not yet freed, and
`connections`, `clients` and `banks` are the three lists of the server.  The five list heads
`conn->bank.maps_*` of every connection are the field `maps`.  All PDUs ever handed to the transmit
queue of a connection are kept in `sent`, with the mapping they are about; only the PDU itself is
on the wire.

The pointers `conn->peer` and `conn->fi` are options, since teardown is a recursion through the FSM
cleanup, `rspro_client_conn_destroy()` and `sock_closed_cb()` that is guarded by which of the two
is already `NULL`.  Code that dereferences a null pointer, takes the first entry of an empty list
or runs into an assertion yields a `Fault`. -/

namespace Remsim

/-- `enum remsim_server_client_fsm_state`. -/
inductive ClntState where
  | init
  | established
  | waitConfRes
  | connectedBankd
  | connectedClient
  | rejected
deriving DecidableEq, Repr

/-- `enum remsim_server_client_event`, without the two events of the all-state mask. -/
inductive ClntEvent where
  | tcpUp
  | clientConn
  | bankConn
  | createMapRes
  | removeMapRes
  | configClRes
  | push
  | clCfgBankd
deriving DecidableEq, Repr

/-- The `in_event_mask` fields of `server_client_fsm_states`. -/
def ClntState.inEventMask : ClntState → ClntEvent → Bool
  | .init, .tcpUp => true
  | .established, .clientConn => true
  | .established, .bankConn => true
  | .waitConfRes, .configClRes => true
  | .connectedClient, .clCfgBankd => true
  | .connectedBankd, .createMapRes => true
  | .connectedBankd, .removeMapRes => true
  | .connectedBankd, .push => true
  | _, _ => false

/-- The five lists of mappings of a bank connection. -/
inductive BankList where
  | mapsNew
  | mapsUnack
  | mapsActive
  | mapsDelreq
  | mapsDeleting
deriving DecidableEq, Repr

/-- The lifecycle state a list stands for. -/
def BankList.state : BankList → SlotMappingState
  | .mapsNew => .new
  | .mapsUnack => .unacknowledged
  | .mapsActive => .active
  | .mapsDelreq => .deleteReq
  | .mapsDeleting => .deleting

/-- Address of a `struct rspro_client_conn`. -/
abbrev ConnId := ℕ

/-- The underlying IPA connection; `addr` is the remote IPv4 address, `none` when
`osmo_sock_get_ip_and_port()` fails on it. -/
structure Peer where
  addr : Option UInt32
deriving DecidableEq, Repr

/-- The bankd configuration of a client (`conn->client.bankd`). -/
structure ClientBankd where
  slot : BankSlot
  ip : UInt32
  port : UInt16
deriving DecidableEq, Repr

/-- `struct rspro_client_conn` without its list heads. -/
structure Conn where
  peer : Option Peer
  fi : Option ClntState
  bankId : UInt16
  numSlots : UInt16
  clientSlot : ClientSlot
  bankd : ClientBankd
deriving DecidableEq, Repr

/-- A transmitted PDU and the mapping it was generated from. -/
structure Tx where
  pdu : RsproPDU
  about : Option MapId
deriving DecidableEq, Repr

/-- What ends the process or leaves defined behaviour. -/
inductive Fault where
  | nullPeer
  | nullConn
  | danglingMap
  | notAnEntry
  | assertion
deriving DecidableEq, Repr

/-- `struct rspro_server` with the slot maps, the eventfd and all connections. -/
structure Server extends Slotmaps where
  conns : ConnId → Option Conn
  maps : ConnId → BankList → List MapId
  connections : List ConnId
  clients : List ConnId
  banks : List ConnId
  nextConn : ConnId
  eventfd : Bool
  sent : ConnId → List Tx

namespace Server

/-- The server after start-up. -/
def initial : Server where
  toSlotmaps := Slotmaps.empty
  conns := fun _ => none
  maps := fun _ _ => []
  connections := []
  clients := []
  banks := []
  nextConn := 0
  eventfd := false
  sent := fun _ => []

variable (s : Server)

/-! ### Elementary updates -/

/-- Assignment to fields of a connection. -/
def modConn (c : ConnId) (f : Conn → Conn) : Server :=
  { s with conns := Function.update s.conns c ((s.conns c).map f) }

/-- `osmo_fsm_inst_state_chg()`: the new state; `onenter` is called by the callers. -/
def setFi (c : ConnId) (st : ClntState) : Server := s.modConn c fun k => { k with fi := some st }

/-- `conn->fi` and its state. -/
def fi (c : ConnId) : Option ClntState := (s.conns c).bind Conn.fi

/-- `osmo_fsm_inst_dispatch()` runs the action of the current state: the instance exists and
its state permits the event. -/
def accepts (c : ConnId) (ev : ClntEvent) : Bool := (s.fi c).any fun st => st.inEventMask ev

/-- `client_conn_send()`. -/
def clientConnSend (c : ConnId) (pdu : RsproPDU) (about : Option MapId) : Server :=
  { s with sent := Function.update s.sent c (s.sent c ++ [⟨pdu, about⟩]) }

/-- `trigger_main_thread_via_eventfd()`. -/
def trigger : Server := { s with eventfd := true }

/-- `_Slotmap_state_change()`: new state, out of its bank list, to the tail of the new one. -/
def slotmapStateChange (m : MapId) (st : SlotMappingState) (dst : Option (ConnId × BankList)) :
    Server :=
  { s with
    heap := Function.update s.heap m ((s.heap m).map fun x => { x with state := st })
    maps := fun c l => (s.maps c l).filter (· ≠ m) ++ (if dst = some (c, l) then [m] else []) }

/-- `_slotmap_del()`: out of the global list and of its bank list, and freed. -/
def slotmapFree (m : MapId) : Server :=
  { s with
    toSlotmaps := s.toSlotmaps.slotmapDel m
    maps := fun c l => (s.maps c l).filter (· ≠ m) }

/-- `llist_del(&conn->list)` followed by an insertion elsewhere. -/
def connListDel (c : ConnId) : Server :=
  { s with
    connections := s.connections.filter (· ≠ c)
    clients := s.clients.filter (· ≠ c)
    banks := s.banks.filter (· ≠ c) }

/-- `client_conn_by_slot()`. -/
def clientConnBySlot (slot : ClientSlot) : Option ConnId :=
  s.clients.find? fun c => (s.conns c).any fun k => k.clientSlot = slot

/-- `bankd_conn_by_id()`. -/
def bankdConnById (bankId : UInt16) : Option ConnId :=
  s.banks.find? fun c => (s.conns c).any fun k => k.bankId = bankId

/-! ### Teardown -/

/-- `_unlink_all_slotmaps()`. -/
def unlinkAllSlotmaps (c : ConnId) : Server :=
  let toNew := fun (s : Server) m => s.slotmapStateChange m .new none
  let del := fun (s : Server) m => s.slotmapFree m
  let s := (s.maps c .mapsNew).foldl toNew s
  let s := (s.maps c .mapsUnack).foldl toNew s
  let s := (s.maps c .mapsActive).foldl toNew s
  let s := (s.maps c .mapsDelreq).foldl del s
  (s.maps c .mapsDeleting).foldl del s

/-- The end of `rspro_client_conn_destroy()`: off its list and freed. -/
def connFree (c : ConnId) : Server :=
  { s.connListDel c with conns := Function.update s.conns c none }

mutual

/-- `osmo_stream_srv_destroy()` and the `sock_closed_cb()` it calls.  The event `CLNTC_E_TCP_DOWN`
it dispatches terminates the FSM in every state (`clnt_allstate_action()`). -/
def sockClosedCb : ℕ → Server → ConnId → Server
  | 0, s, _ => s
  | n + 1, s, c =>
      match s.conns c with
      | none => s
      | some k =>
          if k.fi.isSome then
            if k.peer.isSome then fsmInstTerm n (s.modConn c fun k => { k with peer := none }) c
            else s
          else s

/-- `osmo_fsm_inst_term()`, which calls `server_client_cleanup()`. -/
def fsmInstTerm : ℕ → Server → ConnId → Server
  | 0, s, _ => s
  | n + 1, s, c => rsproClientConnDestroy n (s.modConn c fun k => { k with fi := none }) c

/-- `rspro_client_conn_destroy()`. -/
def rsproClientConnDestroy : ℕ → Server → ConnId → Server
  | 0, s, _ => s
  | n + 1, s, c =>
      match s.conns c with
      | none => s
      | some k =>
          if k.peer.isSome then sockClosedCb n (s.modConn c fun k => { k with peer := none }) c
          else (s.unlinkAllSlotmaps c).connFree c

end

/-- The depth the recursion of the teardown functions reaches. -/
def teardownDepth : ℕ := 3

/-- The socket of the peer is closed: `osmo_stream_srv_destroy()` from `sock_read_cb()`. -/
def tcpDown (c : ConnId) : Server := sockClosedCb teardownDepth s c

/-- `osmo_fsm_inst_term()` called with the connection still open. -/
def term (c : ConnId) : Server := fsmInstTerm teardownDepth s c

/-! ### Client connections -/

/-- `clnt_st_connected_client()`, event `CLNTC_E_CL_CFG_BANKD`. -/
def clntStConnectedClient (c : ConnId) : Server :=
  match s.conns c with
  | none => s
  | some k => s.clientConnSend c
      (.configClientBankReq (bankSlot2rspro k.bankd.slot) k.bankd.ip k.bankd.port) none

/-- Address and port of the bankd a client shall use, as `_update_client_for_slotmap()` computes
them: zero for a mapping that is being deleted or whose bank is not connected; the inner `none` is
the error return when the address cannot be read. -/
def bankdAddr (x : SlotMapping) (bankdConn : Option ConnId) :
    Except Fault (Option (UInt32 × UInt16)) :=
  if x.state = .deleting then .ok (some (0, 0)) else
    match bankdConn with
    | none => .ok (some (0, 0))
    | some b =>
        match (s.conns b).bind Conn.peer with
        | none => .error .nullPeer
        | some p => .ok (p.addr.map fun ip => (ip, 9999))

/-- `_update_client_for_slotmap()`. -/
def updateClientForSlotmap (x : SlotMapping) (bankdConn : Option ConnId) : Except Fault Server :=
  match s.clientConnBySlot x.client with
  | none => .ok s
  | some c => do
      let old := (s.conns c).map Conn.bankd
      let s := s.modConn c fun k => { k with bankd := { k.bankd with slot := x.bank } }
      let bankdConn := bankdConn <|> s.bankdConnById x.bank.bankId
      match ← s.bankdAddr x bankdConn with
      | none => .ok s
      | some (ip, port) =>
          let s := s.modConn c fun k => { k with bankd := ⟨x.bank, ip, port⟩ }
          if old = some ⟨x.bank, ip, port⟩ then .ok s
          else if s.accepts c .clCfgBankd then .ok (s.clntStConnectedClient c)
          else .ok s

/-- `clnt_st_connected_client_onenter()`. -/
def clntStConnectedClientOnenter (c : ConnId) : Except Fault Server :=
  match s.conns c with
  | none => .ok s
  | some k =>
      match s.slotmapByClient k.clientSlot with
      | none => .ok s
      | some m =>
          match s.heap m with
          | none => .error .danglingMap
          | some x => s.updateClientForSlotmap x none

/-! ### Bank connections -/

/-- `clnt_st_connected_bankd_onenter()`: link all known mappings of this bank. -/
def clntStConnectedBankdOnenter (c : ConnId) : Server :=
  s.mappings.foldl (fun (s : Server) m =>
    if ((s.heap m).map fun x => x.bank.bankId) = (s.conns c).map Conn.bankId then
      s.slotmapStateChange m .new (some (c, .mapsNew))
    else s) s

/-- `clnt_st_connected_bankd()`, event `CLNTC_E_CREATE_MAP_RES`.  The first element of
`maps_unack` is taken for the mapping that the response is about; the result code is not read. -/
def createMapRes (c : ConnId) : Except Fault Server :=
  match s.maps c .mapsUnack with
  | [] => .error .notAnEntry
  | m :: _ =>
      let s := s.slotmapStateChange m .active (some (c, .mapsActive))
      match s.heap m with
      | none => .error .danglingMap
      | some x => s.updateClientForSlotmap x (some c)

/-- `clnt_st_connected_bankd()`, event `CLNTC_E_REMOVE_MAP_RES`. -/
def removeMapRes (c : ConnId) : Except Fault Server :=
  match s.maps c .mapsDeleting with
  | [] => .error .notAnEntry
  | m :: _ =>
      match s.heap m with
      | none => .error .danglingMap
      | some x =>
          if x.state = .deleting then do
            let s ← s.updateClientForSlotmap x (some c)
            .ok (s.slotmapFree m)
          else .error .assertion

/-- One round of a `CLNTC_E_PUSH` loop: request sent, then moved to the list of requests that
await their response. -/
def pushOne (c : ConnId) (req : SlotMapping → RsproPDU) (st : SlotMappingState) (dst : BankList)
    (m : MapId) : Server :=
  match s.heap m with
  | none => s
  | some x => (s.clientConnSend c (req x) (some m)).slotmapStateChange m st (some (c, dst))

/-- `clnt_st_connected_bankd()`, event `CLNTC_E_PUSH`. -/
def push (c : ConnId) : Server :=
  let s := (s.maps c .mapsNew).foldl
    (fun s m => pushOne s c slotmap2CreateMappingReq .unacknowledged .mapsUnack m) s
  (s.maps c .mapsDelreq).foldl
    (fun s m => pushOne s c slotmap2RemoveMappingReq .deleting .mapsDeleting m) s

/-- `osmo_fsm_inst_dispatch(fi, CLNTC_E_PUSH, NULL)`. -/
def dispatchPush (c : ConnId) : Server := if s.accepts c .push then s.push c else s

/-! ### Established connections -/

/-- A connection refused as duplicate.  The address of the earlier connection is read for the
log message, through its `peer` pointer. -/
def reject (c prev : ConnId) (res : RsproPDU) : Except Fault Server :=
  match (s.conns prev).bind Conn.peer with
  | none => .error .nullPeer
  | some _ => .ok ((s.clientConnSend c res none).setFi c .rejected)

/-- A client of a new identity: re-parented to `srv->clients` and answered. -/
def acceptClient (c : ConnId) : Except Fault Server :=
  let s := s.connListDel c
  let s := { s with clients := s.clients ++ [c] }
  let s := s.clientConnSend c (.connectClientRes .remsimServer .ok) none
  (s.setFi c .connectedClient).clntStConnectedClientOnenter c

/-- `clnt_st_established()`, event `CLNTC_E_CLIENT_CONN`. -/
def establishedClientConn (c : ConnId) (identity : ComponentType)
    (clientSlot : Option ClientSlotT) : Except Fault Server :=
  if identity ≠ .remsimClient then .ok (s.term c) else
    match clientSlot with
    | none => .ok (s.term c)
    | some cs =>
        let s := s.modConn c fun k => { k with clientSlot := rspro2clientSlot cs }
        match s.clientConnBySlot (rspro2clientSlot cs) with
        | none => s.acceptClient c
        | some prev =>
            if prev ≠ c then s.reject c prev (.connectClientRes .remsimServer .identityInUse)
            else s.acceptClient c

/-- A bankd of a new identity: re-parented to `srv->banks`, answered, its mappings linked and
pushed. -/
def acceptBank (c : ConnId) : Server :=
  let s := s.connListDel c
  let s := { s with banks := s.banks ++ [c] }
  let s := s.clientConnSend c (.connectBankRes .remsimServer .ok) none
  ((s.setFi c .connectedBankd).clntStConnectedBankdOnenter c).dispatchPush c

/-- `clnt_st_established()`, event `CLNTC_E_BANK_CONN`. -/
def establishedBankConn (c : ConnId) (identity : ComponentType) (bankId numberOfSlots : ℤ) :
    Except Fault Server :=
  if identity ≠ .remsimBankd then .ok (s.term c) else
    let s := s.modConn c fun k =>
      { k with bankId := .ofInt bankId, numSlots := .ofInt numberOfSlots }
    match s.bankdConnById (.ofInt bankId) with
    | none => .ok (s.acceptBank c)
    | some prev =>
        if prev ≠ c then s.reject c prev (.connectBankRes .remsimServer .identityInUse)
        else .ok (s.acceptBank c)

/-- `handle_rx_rspro()` with the action that `osmo_fsm_inst_dispatch()` selects. -/
def handleRxRspro (c : ConnId) : RsproPDU → Except Fault Server
  | .connectClientReq identity clientSlot =>
      if s.accepts c .clientConn then s.establishedClientConn c identity clientSlot else .ok s
  | .connectBankReq identity bankId numberOfSlots =>
      if s.accepts c .bankConn then s.establishedBankConn c identity bankId numberOfSlots
      else .ok s
  | .createMappingRes _ => if s.accepts c .createMapRes then s.createMapRes c else .ok s
  | .removeMappingRes _ => if s.accepts c .removeMapRes then s.removeMapRes c else .ok s
  | .configClientIdRes _ =>
      if s.accepts c .configClRes then
        (s.setFi c .connectedClient).clntStConnectedClientOnenter c
      else .ok s
  | _ => .ok s

/-! ### New connections, timers and the eventfd -/

/-- A freshly allocated connection. -/
def freshConn (addr : Option UInt32) : Conn where
  peer := some ⟨addr⟩
  fi := some .established
  bankId := 0
  numSlots := 0
  clientSlot := ⟨0, 0⟩
  bankd := ⟨⟨0, 0⟩, 0, 0⟩

/-- `accept_cb()`, including the transition of `clnt_st_init()` on `CLNTC_E_TCP_UP`. -/
def acceptCb (addr : Option UInt32) : Server :=
  { s with
    conns := Function.update s.conns s.nextConn (some (freshConn addr))
    maps := Function.update s.maps s.nextConn fun _ => []
    connections := s.connections ++ [s.nextConn]
    nextConn := s.nextConn + 1 }

/-- `event_fd_cb()`.  The two variables `non_empty_*` hold the value of `llist_empty()`. -/
def eventFdCb : Server :=
  if s.eventfd then
    s.banks.foldl (fun (s : Server) c =>
      let nonEmptyNew := (s.maps c .mapsNew).isEmpty
      let nonEmptyDel := (s.maps c .mapsDelreq).isEmpty
      if nonEmptyNew || nonEmptyDel then s.dispatchPush c else s) { s with eventfd := false }
  else s

end Server

end Remsim
