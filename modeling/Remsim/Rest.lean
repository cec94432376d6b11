import Remsim.Server
import Remsim.Transition

/-! # The REST interface and the steps of the server (`rest_api.c`)

The three operations of the REST interface on slot maps, each as one atomic step, and the system
`Server.lts` of all atomic steps of the server: REST requests, the eventfd callback, accepted
connections, received PDUs, `CLNTC_E_PUSH` events, and the four ways a connection FSM ends
(socket closed, keep-alive timeout, timer expiry, and the protocol errors inside
`clnt_st_established()`, which are part of the reception of a PDU).  A step that faults has no
successor. -/

namespace Remsim
namespace Server

variable (s : Server)

/-- `slotmap_get_id()`. -/
def slotmapGetId (x : SlotMapping) : ℕ := x.bank.bankId.toNat * 65536 + x.bank.slotNr.toNat

/-- `api_cb_slotmaps_post()` after the JSON body has been read: the status and the new state. -/
def apiCbSlotmapsPost (bank : BankSlot) (client : ClientSlot) : ℕ × Server :=
  match s.slotmapAdd bank client with
  | none => (400, s)
  | some (m, sm) =>
      let s := { s with toSlotmaps := sm }
      let s := s.slotmapStateChange m .new none
      match s.bankdConnById bank.bankId with
      | none => (201, s)
      | some c => (201, (s.slotmapStateChange m .new (some (c, .mapsNew))).trigger)

/-- `_slotmap_mark_deleted()`. -/
def slotmapMarkDeleted (m : MapId) : Except Fault Server :=
  match s.heap m with
  | none => .error .danglingMap
  | some x =>
      let conn := s.bankdConnById x.bank.bankId
      let s := { s with mappings := s.mappings.filter (· ≠ m) }
      match x.state with
      | .new => .ok (s.slotmapFree m)
      | .unacknowledged => .ok s
      | .active =>
          match conn with
          | none => .error .nullConn
          | some c => .ok ((s.slotmapStateChange m .deleteReq (some (c, .mapsDelreq))).trigger)
      | .deleteReq => .ok s
      | .deleting => .ok s

/-- The mapping a numeric `slotmap_id` names. -/
def mapById (mapId : ℕ) : Option MapId :=
  s.mappings.find? fun m => (s.heap m).any fun x => slotmapGetId x = mapId

/-- `api_cb_slotmaps_del()` after the identifier has been converted to a number. -/
def apiCbSlotmapsDel (mapId : ℕ) : Except Fault (ℕ × Server) :=
  match s.mapById mapId with
  | none => .ok (404, s.trigger)
  | some m => do
      let s ← s.slotmapMarkDeleted m
      .ok (200, s.trigger)

/-- Marking a list of mappings as deleted, one after the other. -/
def markAll : List MapId → Server → Except Fault Server
  | [], s => .ok s
  | m :: ms, s => do
      let s ← s.slotmapMarkDeleted m
      markAll ms s

/-- `api_cb_global_reset_post()`. -/
def apiCbGlobalResetPost : Except Fault (ℕ × Server) := do
  let s ← markAll s.mappings s
  .ok (200, s.trigger)

/-! ### The steps of the server -/

/-- One atomic step of the server. -/
inductive Op where
  | post (bank : BankSlot) (client : ClientSlot)
  | del (mapId : ℕ)
  | globalReset
  | eventFd
  | accept (addr : Option UInt32)
  | rx (c : ConnId) (pdu : RsproPDU)
  | push (c : ConnId)
  | closed (c : ConnId)
  | kaTimeout (c : ConnId)
  | timeout (c : ConnId)
deriving DecidableEq, Repr

/-- The connection has a socket. -/
def isOpen (c : ConnId) : Bool := ((s.conns c).bind Conn.peer).isSome

/-- A timer of the connection's FSM is running: T1 in `ESTABLISHED`, T2 in `REJECTED`. -/
def timerRunning (c : ConnId) : Bool :=
  decide (s.fi c = some .established) || decide (s.fi c = some .rejected)

/-- The step can happen: PDUs, closing and keep-alive need a socket, a timeout a running timer. -/
def enabled : Op → Bool
  | .rx c _ => s.isOpen c
  | .closed c => s.isOpen c
  | .kaTimeout c => s.isOpen c
  | .timeout c => s.timerRunning c
  | .eventFd => s.eventfd
  | _ => true

/-- The effect of a step. -/
def perform : Op → Except Fault Server
  | .post bank client => .ok (s.apiCbSlotmapsPost bank client).2
  | .del mapId => (s.apiCbSlotmapsDel mapId).map Prod.snd
  | .globalReset => s.apiCbGlobalResetPost.map Prod.snd
  | .eventFd => .ok s.eventFdCb
  | .accept addr => .ok (s.acceptCb addr)
  | .rx c pdu => s.handleRxRspro c pdu
  | .push c => .ok (s.dispatchPush c)
  | .closed c => .ok (s.tcpDown c)
  | .kaTimeout c => .ok (s.term c)
  | .timeout c => .ok (s.term c)

/-- The successor state, if the step is enabled and does not fault. -/
def stepOp (op : Op) : Option Server := if s.enabled op then (s.perform op).toOption else none

/-- The transition system of the server alone, with arbitrary peers. -/
def lts : Transition.Lts Server Op := Transition.ofFun (· = initial) stepOp

theorem lts_step {s s' : Server} {op : Op} :
    lts.step s op s' ↔ s.enabled op = true ∧ s.perform op = .ok s' := by
  show s.stepOp op = some s' ↔ _
  unfold stepOp
  cases s.perform op with
  | ok t => by_cases h : s.enabled op = true <;> simp [h, Except.toOption]
  | error e => by_cases h : s.enabled op = true <;> simp [h, Except.toOption]

end Server
end Remsim
