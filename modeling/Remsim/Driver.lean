import Remsim.ClientMain

/-! # The PC/SC driver (`user_ifdhandler.c`)

A call of the IFD handler writes one request to a socket and blocks until it has read one message
from it; the client thread at the other end answers, and runs the two state machines of
`ClientMain`.  The socket keeps the limits of messages, loses none, and cuts a message to the size
of the buffer it is read into.  One call is outstanding at a time.  `ifd_xceive_client()` compares
the result of `write()` with the length of a message that it has just freed; here that is the length
from before, so the comparison never fails.

`Disciplined` says what keeps requests and messages in step, and `Orderly` under which steps it
stays so.  The functions of the frontend that do nothing here are left out, and `it_sock_fd_cb()`
handles reading and writing in two steps. -/

namespace Remsim

/-- `enum itmsg_type`. -/
inductive ItmsgType where
  | cardPresReq
  | cardPresResp
  | atrReq
  | atrResp
  | cApduReq
  | rApduInd
  | powerOffReq
  | powerOffResp
  | powerOnReq
  | powerOnResp
  | resetReq
  | resetResp
deriving DecidableEq, Repr

/-- `struct itmsg`; `len` is the length of the data. -/
structure Itmsg where
  type : ItmsgType
  status : UInt16
  data : List UInt8
deriving DecidableEq, Repr

/-- `sizeof(struct itmsg)`. -/
def sizeofItmsg : ℕ := 8

/-- The size of the buffers that both threads read into. -/
def itBufSize : ℕ := 1024

/-- `ATR_SIZE_MAX`. -/
def atrSizeMax : ℕ := 55

/-- `itmsg_alloc()`: the length has 16 bits.  So has the size that is passed to `msgb_alloc_c()`;
where that is too small, `msgb_put()` ends the process. -/
def itmsgAlloc (type : ItmsgType) (status : UInt16) (data : List UInt8) : Option Itmsg :=
  let len := data.length % 2 ^ 16
  if sizeofItmsg + len < 2 ^ 16 then some ⟨type, status, data.take len⟩ else none

/-- What the reader of a message gets; nothing when it finds that the message was cut. -/
def Itmsg.received (m : Itmsg) : Option Itmsg :=
  let msgbLength := min (sizeofItmsg + m.data.length) itBufSize
  if msgbLength < sizeofItmsg + m.data.length then none else some m

/-- The requests of the IFD handler. -/
inductive IfdRequest where
  | cardPres
  | atr
  | powerOff
  | powerOn
  | reset
  | cApdu (data : List UInt8)
deriving DecidableEq, Repr

namespace IfdRequest

/-- The type of a request. -/
def reqType : IfdRequest → ItmsgType
  | .cardPres => .cardPresReq
  | .atr => .atrReq
  | .powerOff => .powerOffReq
  | .powerOn => .powerOnReq
  | .reset => .resetReq
  | .cApdu _ => .cApduReq

/-- The type of the message that belongs to a request. -/
def respType : IfdRequest → ItmsgType
  | .cardPres => .cardPresResp
  | .atr => .atrResp
  | .powerOff => .powerOffResp
  | .powerOn => .powerOnResp
  | .reset => .resetResp
  | .cApdu _ => .rApduInd

/-- The data that goes with a request. -/
def data : IfdRequest → List UInt8
  | .cApdu data => data
  | _ => []

/-- The message of a request. -/
def msg (r : IfdRequest) : Option Itmsg := itmsgAlloc r.reqType 0 r.data

end IfdRequest

/-- `struct client_thread`, what is in the socket in either direction, the request of the
outstanding call, and all calls that have returned, with the message they got. -/
structure Driver where
  client : Client
  itMsgq : List Itmsg
  /-- `OSMO_FD_WRITE` in `it_ofd.when`. -/
  itWrite : Bool
  atr : List UInt8
  toClient : List Itmsg
  toIfd : List Itmsg
  calling : Option IfdRequest
  returned : List (IfdRequest × Option Itmsg)
deriving DecidableEq, Repr

/-- An event of a modem, which this frontend does not have. -/
def Client.Input.fromModem : Client.Input → Bool
  | .mdmStatusInd _ | .mdmPtsInd | .mdmTpdu _ => true
  | _ => false

namespace Driver

/-- `enqueue_to_ifd()`. -/
def enqueueToIfd (m : Itmsg) (d : Driver) : Driver :=
  { d with itMsgq := d.itMsgq ++ [m], itWrite := true }

/-- A message for the IFD thread is allocated and enqueued. -/
def respond (type : ItmsgType) (status : UInt16) (data : List UInt8) (d : Driver) :
    Option Driver :=
  (itmsgAlloc type status data).map d.enqueueToIfd

/-- `frontend_handle_card2modem()` and `frontend_handle_set_atr()`. -/
def frontendCall (d : Driver) : FrontendCall → Option Driver
  | .handleCard2modem data => d.respond .rApduInd 0 data
  | .handleSetAtr atr => some { d with atr := atr.take atrSizeMax }
  | _ => some d

variable (notifies : Stream → Bool)

/-- `server_conn_send_rspro(&bc->bankd_conn, ..)`. -/
def serverConnSendRspro (pdu : RsproPDU) (d : Driver) : Driver :=
  { d with client := (Client.bankd notifies).dispatch (.rsproTx pdu) d.client }

/-- A `clientSlotStatusInd` for the bankd. -/
def slotStatus (resetActive vccPresent : ℤ) : Driver → Driver :=
  serverConnSendRspro notifies (rsproGenClientSlotStatusInd ⟨resetActive, vccPresent⟩)

/-- `handle_it_msg()`; `srv_conn.clslot` is always there. -/
def handleItMsg (m : Itmsg) (d : Driver) : Option Driver :=
  match m.type with
  | .cardPresReq =>
      d.respond .cardPresResp
        (if d.client.bankdConn.fi.state = .connected then 0 else 0xffff) []
  | .atrReq => d.respond .atrResp 0 d.atr
  | .powerOffReq => (d.slotStatus notifies 1 0).respond .powerOffResp 0 []
  | .powerOnReq => (d.slotStatus notifies 0 1).respond .powerOnResp 0 []
  | .resetReq =>
      ((d.slotStatus notifies 1 1).slotStatus notifies 0 1).respond .resetResp 0 []
  | .cApduReq =>
      some (d.serverConnSendRspro notifies
        (.tpduModemToCard d.client.clslot (bankSlot2rspro d.client.bankdSlot) m.data))
  | _ => some d

/-- What happens: `ifd_xceive_client()` writes a request, the client thread reads from the socket
and writes to it, the call reads its message, and an input of the two state machines. -/
inductive Label where
  | request (r : IfdRequest)
  | clientRead
  | clientWrite
  | ifdRead
  | client (l : Client.Label)
deriving DecidableEq, Repr

/-- The successor state, if the step can happen. -/
def next (d : Driver) : Label → Option Driver
  | .request r =>
      match d.calling with
      | none => r.msg.map fun m => { d with toClient := d.toClient ++ [m], calling := some r }
      | some _ => none
  | .clientRead =>
      match d.toClient with
      | [] => none
      | m :: rest =>
          match m.received with
          | none => some { d with toClient := rest }
          | some m => handleItMsg notifies m { d with toClient := rest }
  | .clientWrite =>
      if d.itWrite then
        match d.itMsgq with
        | [] => some { d with itWrite := false }
        | m :: rest => some { d with itMsgq := rest, toIfd := d.toIfd ++ [m] }
      else none
  | .ifdRead =>
      match d.calling, d.toIfd with
      | some r, m :: rest =>
          some { d with
            toIfd := rest
            calling := none
            returned := d.returned ++ [(r, m.received)] }
      | _, _ => none
  | .client l =>
      if l.input.fromModem then none
      else
        (d.client.next notifies l).bind fun c =>
          -- the calls of the frontend that the input has led to
          (c.frontend.drop d.client.frontend.length).foldlM frontendCall { d with client := c }

/-- A new channel. -/
def Initial (d : Driver) : Prop :=
  d.client.Initial ∧ d.client.bankdConn.sent = [] ∧ d.itMsgq = [] ∧ d.atr = [] ∧
    d.toClient = [] ∧ d.toIfd = [] ∧ d.calling = none ∧ d.returned = []

/-- All runs of a channel. -/
def lts : Transition.Lts Driver Label := Transition.ofFun Initial (next notifies)

end Driver

/-- The C-APDU in a PDU for the bankd. -/
def RsproPDU.apdu : RsproPDU → Option (List UInt8)
  | .tpduModemToCard _ _ data => some data
  | _ => none

/-- The C-APDU that an event sends to the bankd. -/
def ServerConnEvent.apdu : ServerConnEvent → Option (List UInt8)
  | .rsproTx pdu => pdu.apdu
  | _ => none

/-- The event passes an APDU on. -/
def MainEvent.isApdu : MainEvent → Bool
  | .bankdTpdu _ | .mdmTpdu _ => true
  | _ => false

/-- The C-APDU in a request, as far as it is sent. -/
def IfdRequest.apdu : IfdRequest → Option (List UInt8)
  | .cApdu data => some (data.take (data.length % 2 ^ 16))
  | _ => none

/-- An input that ends a connection to the bankd that is `CONNECTED`. -/
def Client.Input.dropsBankd : Client.Input → Bool
  | .srvcConfigBank _ _ _ | .srvcResetReq | .bankdDown | .bankdKaTimeout => true
  | .bankdRx (.connectClientRes identity _) => identity ≠ .remsimBankd
  | _ => false

/-- The R-APDU in an input. -/
def Client.Input.rApdu : Client.Input → Option (List UInt8)
  | .bankdRx (.tpduCardToModem _ _ data) => some data
  | _ => none

/-- The C-APDUs sent to the bankd. -/
def SrvConn.apdus (c : SrvConn) : List (List UInt8) := c.sent.filterMap RsproPDU.apdu

namespace Driver

variable (notifies : Stream → Bool)

/-- The C-APDUs that the client thread has read from the socket. -/
def apdus (d : Driver) : List (List UInt8) :=
  d.returned.filterMap (·.1.apdu) ++
    if d.toClient = [] then (d.calling.bind IfdRequest.apdu).toList else []

/-- A C-APDU was read, and there is no message for its call yet. -/
def waiting (d : Driver) : Bool :=
  (d.calling.bind IfdRequest.apdu).isSome && d.toClient.isEmpty && d.itMsgq.isEmpty &&
    d.toIfd.isEmpty

/-- Where the outstanding call is; in each case there is no other message. -/
inductive Underway (d : Driver) (r : IfdRequest) : Prop
  /-- Its request is in the socket. -/
  | asked {m : Itmsg} : r.msg = some m → d.toClient = [m] → d.itMsgq = [] → d.toIfd = [] →
      Underway d r
  /-- The message for it is queued or in the socket. -/
  | answered {m : Itmsg} : m.type = r.respType → d.toClient = [] → d.itMsgq ++ d.toIfd = [m] →
      Underway d r
  /-- Its C-APDU has gone to the bankd, and the connection is up. -/
  | waiting {data : List UInt8} : r.apdu = some data → d.toClient = [] → d.itMsgq = [] →
      d.toIfd = [] → d.client.bankdConn.fi.state = .connected → Underway d r

/-- A step of the two threads, or an R-APDU of the bankd. -/
def Label.serves : Label → Bool
  | .clientRead | .clientWrite | .ifdRead => true
  | .request _ => false
  | .client l => l.input.rApdu.isSome

/-- Such steps make the outstanding call return. -/
def CanReturn (d : Driver) : Prop :=
  ∃ ls d', (∀ l ∈ ls, l.serves = true) ∧ Transition.exec (next notifies) d ls = some d' ∧
    d'.calling = none

/-- The steps that keep them so: a C-APDU is short enough for the buffer and is read while the
bankd is connected, the connection is not lost while its R-APDU is outstanding, and the bankd sends
one R-APDU for it, which is short enough, and no others. -/
def Orderly (d : Driver) : Label → Prop
  | .request r => r.data.length % 2 ^ 16 ≤ 1016
  | .clientRead =>
      d.toClient.head?.all (fun m => m.type ≠ .cApduReq) = true ∨
        d.client.bankdConn.fi.state = .connected
  | .clientWrite | .ifdRead => True
  | .client l =>
      (d.waiting = true → l.input.dropsBankd = false) ∧
        (d.client.mainFi.state = .operational → ∀ data ∈ l.input.rApdu,
          d.waiting = true ∧ data.length % 2 ^ 16 ≤ 1016)

end Driver

/-! ### What an input of the client can do -/

namespace SrvConn

variable {notifies : Stream → Bool} {now : ℕ} {c : SrvConn}

/-- No timer is running in `CONNECTED`. -/
def Untimed (c : SrvConn) : Prop := c.fi.state = .connected → c.fi.timer = none

theorem untimed_of_state (h : c.fi.state ≠ .connected) : c.Untimed := fun hc => absurd hc h

theorem untimed_reestablish (h : c.Untimed) : (c.reestablish now).1.Untimed := by
  unfold reestablish
  split_ifs
  · exact h
  · exact untimed_of_state nofun

theorem untimed_retry : Untimed (c.retry now) := untimed_of_state nofun

theorem untimed_down (h : c.Untimed) : (c.down now).1.Untimed :=
  down_rule (P := fun r => r.1.Untimed) (fun _ => untimed_retry) fun _ => h

theorem untimed_close (h : c.Untimed) : (c.close notifies now).1.Untimed :=
  close_rule (P := fun r => r.1.Untimed) (fun _ => untimed_retry) fun _ => h

theorem untimed_react (h : c.Untimed) (e : ServerConnEvent) :
    (c.react notifies now e).1.Untimed := by
  cases e with
  | establish =>
      have h' : Untimed { c with
          reestablishDelayIdx := 0
          reestablishLastMs := 0
          hist := c.hist ++ [.establish now] } := h
      exact untimed_reestablish h'
  | disconnect => exact untimed_of_state fun hs => by cases hs
  | tcpUp =>
      simp only [react]
      split_ifs
      · exact untimed_of_state fun hs => by cases hs
      · exact h
  | tcpDown => exact untimed_down h
  | kaTimeout => exact untimed_down h
  | clientConnRes res =>
      simp only [react]
      split_ifs
      · exact untimed_close h
      · exact fun _ => rfl
      · exact h
  | rsproTx pdu =>
      simp only [react]
      split_ifs
      · exact h
      · exact h

theorem untimed_expired {r : Reaction} (h : c.expired notifies now = some r) : r.1.Untimed := by
  obtain ⟨t, _, _, rfl⟩ := expired_eq h
  have hc : Untimed { c with fi := { c.fi with timer := none } } := fun _ => rfl
  unfold timeout
  split
  · split_ifs
    · exact untimed_of_state nofun
    · exact hc
  · exact untimed_reestablish hc
  · exact untimed_close hc
  · exact hc

theorem sent_reestablish : (c.reestablish now).1.sent = c.sent := by
  unfold reestablish
  split_ifs <;> rfl

theorem sent_down : (c.down now).1.sent = c.sent :=
  down_rule (P := fun r => r.1.sent = c.sent) (fun _ => rfl) fun _ => rfl

theorem sent_notified (st : Stream) : (c.notified notifies now st).1.sent = c.sent :=
  notified_rule (P := fun r => r.1.sent = c.sent) (fun _ => rfl) rfl st

theorem sent_close : (c.close notifies now).1.sent = c.sent :=
  close_rule (P := fun r => r.1.sent = c.sent) (fun _ => rfl) fun _ => rfl

/-- Only the client itself sends C-APDUs. -/
theorem apdus_react {e : ServerConnEvent} (he : e.apdu = none) :
    (c.react notifies now e).1.apdus = c.apdus := by
  unfold apdus
  cases e with
  | establish => exact congrArg _ sent_reestablish
  | disconnect =>
      refine congrArg _ ?_
      unfold react
      cases c.conn with
      | none => rfl
      | some st => exact sent_notified st
  | tcpUp =>
      simp only [react]
      split_ifs
      · have hh : c.hello.apdu = none := by
          unfold hello
          split_ifs <;> rfl
        simp only [List.filterMap_append, List.filterMap_cons, hh, List.filterMap_nil,
          List.append_nil]
      · rfl
  | tcpDown => exact congrArg _ sent_down
  | kaTimeout => exact congrArg _ sent_down
  | clientConnRes res =>
      simp only [react]
      split_ifs
      · exact congrArg _ sent_close
      · rfl
      · rfl
  | rsproTx pdu =>
      simp only [react]
      split_ifs
      · change pdu.apdu = none at he
        simp only [List.filterMap_append, List.filterMap_cons, he, List.filterMap_nil,
          List.append_nil]
      · rfl

theorem apdus_expired {r : Reaction} (h : c.expired notifies now = some r) :
    r.1.apdus = c.apdus := by
  obtain ⟨t, _, _, rfl⟩ := expired_eq h
  refine congrArg (List.filterMap RsproPDU.apdu) ?_
  unfold timeout
  split
  · split_ifs <;> rfl
  · exact sent_reestablish
  · exact sent_close
  · rfl

end SrvConn

/-- An R-APDU is passed to the frontend. -/
def FrontendCall.isRApdu : FrontendCall → Bool
  | .handleCard2modem _ => true
  | _ => false

namespace Client

variable {notifies : Stream → Bool} {c c' c'' : Client}

/-- From one state to the other no APDU was passed on, in either direction. -/
structure Passes (c c' : Client) : Prop where
  frontend : ∃ fs, c'.frontend = c.frontend ++ fs ∧ ∀ f ∈ fs, f.isRApdu = false
  apdus : c'.bankdConn.apdus = c.bankdConn.apdus

theorem Passes.of_eq (hf : c'.frontend = c.frontend)
    (ha : c'.bankdConn.apdus = c.bankdConn.apdus) : c.Passes c' :=
  ⟨⟨[], by rw [hf, List.append_nil], nofun⟩, ha⟩

theorem Passes.refl (c : Client) : c.Passes c := .of_eq rfl rfl

theorem Passes.trans (h : c.Passes c') (h' : c'.Passes c'') : c.Passes c'' := by
  obtain ⟨fs, hfs, hn⟩ := h.frontend
  obtain ⟨fs', hfs', hn'⟩ := h'.frontend
  refine ⟨⟨fs ++ fs', ?_, fun f hf => ?_⟩, h'.apdus.trans h.apdus⟩
  · rw [hfs', hfs, List.append_assoc]
  · rcases List.mem_append.mp hf with hf | hf
    · exact hn f hf
    · exact hn' f hf

theorem Passes.of_calls {fs : List FrontendCall} (hf : c'.frontend = c.frontend ++ fs)
    (hn : fs.all (fun f => !f.isRApdu) = true) (ha : c'.bankdConn.apdus = c.bankdConn.apdus) :
    c.Passes c' := by
  refine ⟨⟨fs, hf, fun f hmem => ?_⟩, ha⟩
  simpa using List.all_eq_true.mp hn f hmem

theorem passes_report (e : ParentEvent) (c : Client) : c.Passes (report e c) := by
  cases e with
  | conn =>
      simp only [report]
      split_ifs
      · exact .of_calls rfl rfl rfl
      · exact .refl c
  | disc =>
      simp only [report]
      split_ifs
      · exact .of_calls rfl rfl rfl
      · exact .refl c

theorem passes_put {r : Reaction} (h : r.1.apdus = c.bankdConn.apdus) :
    c.Passes ((linked notifies).put r c) := by
  have hp : ∀ (es : List ParentEvent) (c : Client), c.Passes ((linked notifies).parents es c) := by
    intro es
    induction es with
    | nil => exact Passes.refl
    | cons e es ih => exact fun c => (passes_report e c).trans (ih _)
  obtain ⟨fs, hfs, hn⟩ := (hp r.2 c).frontend
  exact ⟨⟨fs, hfs, hn⟩, h⟩

theorem passes_dispatch {e : ServerConnEvent} (he : e.apdu = none) (c : Client) :
    c.Passes ((linked notifies).dispatch e c) := by
  rw [linked_lawful.dispatch_eq]
  exact passes_put (SrvConn.apdus_react he)

theorem passes_moveTo (st : MainState) (c : Client) : c.Passes (c.moveTo st) := by
  unfold moveTo
  split_ifs
  · exact .of_calls rfl rfl rfl
  · exact .of_eq rfl rfl

theorem passes_unconfigure (c : Client) : c.Passes (c.unconfigure notifies) := by
  unfold unconfigure
  split_ifs
  · exact .refl c
  · exact (passes_moveTo _ c).trans (passes_dispatch rfl _)

theorem passes_await (c : Client) : c.Passes c.await := by
  unfold await
  split_ifs
  · exact passes_moveTo _ c
  · exact .refl c

theorem passes_handle {e : MainEvent} (he : e.isApdu = false) (c : Client) :
    c.Passes (c.handle notifies e) := by
  cases e with
  | srvcConnected =>
      simp only [handle]
      split_ifs
      · exact passes_unconfigure c
      · exact .refl c
  | srvcLost => exact .refl c
  | srvcConfigBank slot ip port =>
      have hc : c.Passes (c.configure slot ip port) := .of_eq rfl rfl
      simp only [handle]
      split_ifs
      · exact .refl c
      · exact (hc.trans (passes_unconfigure _)).trans (.of_eq rfl rfl)
      · exact ((hc.trans (passes_await _)).trans (passes_dispatch rfl _)).trans (.of_eq rfl rfl)
  | srvcResetReq => exact passes_unconfigure c
  | bankdConnected => exact passes_report .conn c
  | bankdLost => exact passes_report .disc c
  | bankdTpdu data => cases he
  | mdmTpdu data => cases he
  | bankdAtr atr =>
      simp only [handle, serve]
      split_ifs
      · exact passes_dispatch rfl c
      · have hc : c.Passes (c.call [.handleSetAtr atr]) := .of_calls rfl rfl rfl
        exact hc.trans (passes_dispatch rfl _)
      · exact .refl c
  | bankdSlotStatus st =>
      simp only [handle, serve]
      split_ifs
      · exact .of_calls rfl rfl rfl
      · exact .refl c
  | mdmStatusInd st =>
      simp only [handle, serve]
      split_ifs
      · exact passes_dispatch rfl c
      · exact .refl c
  | mdmPtsInd =>
      simp only [handle, serve]
      split_ifs
      · exact .refl c
      · exact .refl c

theorem passes_stream (st : Stream) :
    c.Passes { c with
      bankdConn := { c.bankdConn with conn := c.bankdConn.conn.map fun _ => st } } :=
  .of_eq rfl rfl

/-- What an input can do, other than those of a modem. -/
theorem input_cases {i : Input} (hm : i.fromModem = false) (h : c.input notifies i = some c') :
    c.Passes c' ∨ ∃ bs cs data, i = .bankdRx (.tpduCardToModem bs cs data) ∧
      c.mainFi.state = .operational ∧ c' = c.call [.handleCard2modem data] := by
  cases i with
  | srvcConfigId slot => exact .inl (Option.some.inj h ▸ .of_eq rfl rfl)
  | bankdUp =>
      obtain rfl := Option.some.inj h
      rw [bankd_eq]
      exact .inl ((passes_stream .connected).trans (passes_dispatch rfl _))
  | bankdDown =>
      obtain rfl := Option.some.inj h
      rw [bankd_eq]
      exact .inl ((passes_stream .closed).trans (passes_dispatch rfl _))
  | bankdKaTimeout =>
      obtain rfl := Option.some.inj h
      rw [bankd_eq]
      exact .inl (passes_dispatch rfl _)
  | bankdExpiry =>
      change (bankd notifies).expire c = some c' at h
      rw [bankd_eq, linked_lawful.expire_eq, Option.map_eq_some_iff] at h
      obtain ⟨r, hr, rfl⟩ := h
      exact .inl (passes_put (SrvConn.apdus_expired hr))
  | mdmStatusInd st => cases hm
  | mdmPtsInd => cases hm
  | mdmTpdu data => cases hm
  | bankdRx pdu =>
      obtain rfl := Option.some.inj h
      cases pdu with
      | connectClientRes identity result =>
          simp only [bankdHandleRx, bankd_eq]
          split_ifs
          · exact .inl (passes_dispatch rfl _)
          · exact .inl (passes_dispatch rfl _)
      | tpduCardToModem bs cs data =>
          simp only [bankdHandleRx, dispatch_eq, handle, serve]
          split_ifs with hst
          · exact .inr ⟨bs, cs, data, rfl, hst, rfl⟩
          · exact .inl (.refl c)
      | setAtrReq slot atr =>
          simp only [bankdHandleRx, dispatch_eq]
          exact .inl (passes_handle rfl c)
      | bankSlotStatusInd st =>
          simp only [bankdHandleRx, dispatch_eq]
          exact .inl (passes_handle rfl c)
      | _ => exact .inl (.refl c)
  | _ =>
      obtain rfl := Option.some.inj h
      rw [dispatch_eq]
      exact .inl (passes_handle rfl c)

theorem dispatch_bankdConn (e : ServerConnEvent) (c : Client) :
    ((linked notifies).dispatch e c).bankdConn = (c.bankdConn.react notifies c.now e).1 := by
  rw [linked_lawful.dispatch_eq]
  rfl

theorem report_bankdConn (e : ParentEvent) (c : Client) : (report e c).bankdConn = c.bankdConn :=
  linked_lawful.get_parent (H := linked fun _ => true) e c

theorem untimed_dispatch (h : c.bankdConn.Untimed) (e : ServerConnEvent) :
    ((linked notifies).dispatch e c).bankdConn.Untimed := by
  rw [dispatch_bankdConn]
  exact SrvConn.untimed_react h e

theorem untimed_unconfigure (h : c.bankdConn.Untimed) :
    (c.unconfigure notifies).bankdConn.Untimed := by
  unfold unconfigure
  split_ifs
  · exact h
  · exact untimed_dispatch (c := c.moveTo .unconfigured) h _

theorem untimed_handle (h : c.bankdConn.Untimed) (e : MainEvent) :
    (c.handle notifies e).bankdConn.Untimed := by
  have hserve : (c.serve notifies e).bankdConn.Untimed := by
    cases e with
    | bankdAtr atr =>
        refine untimed_dispatch ?_ _
        split_ifs
        · exact h
        · exact h
    | mdmStatusInd st => exact untimed_dispatch h _
    | mdmTpdu data => exact untimed_dispatch h _
    | _ => exact h
  cases e with
  | srvcConnected =>
      simp only [handle]
      split_ifs
      · exact untimed_unconfigure h
      · exact h
  | srvcLost => exact h
  | srvcConfigBank slot ip port =>
      have hc : (c.configure slot ip port).bankdConn.Untimed := h
      have ha : (c.configure slot ip port).await.bankdConn.Untimed := by
        unfold await
        split_ifs
        · exact hc
        · exact hc
      simp only [handle]
      split_ifs
      · exact h
      · exact untimed_unconfigure (c := c.configure slot ip port) hc
      · exact untimed_dispatch (c := (c.configure slot ip port).await) ha _
  | srvcResetReq => exact untimed_unconfigure h
  | bankdConnected =>
      simp only [handle, report_bankdConn]
      exact h
  | bankdLost =>
      simp only [handle, report_bankdConn]
      exact h
  | _ =>
      simp only [handle]
      split_ifs
      · exact hserve
      · exact h

theorem untimed_input (h : c.bankdConn.Untimed) {i : Input} (hi : c.input notifies i = some c') :
    c'.bankdConn.Untimed := by
  cases i with
  | srvcConfigId slot => exact Option.some.inj hi ▸ h
  | bankdUp =>
      obtain rfl := Option.some.inj hi
      rw [bankd_eq]
      show ((linked notifies).dispatch .tcpUp _).bankdConn.Untimed
      exact untimed_dispatch (by exact h) _
  | bankdDown =>
      obtain rfl := Option.some.inj hi
      rw [bankd_eq]
      show ((linked notifies).dispatch .tcpDown _).bankdConn.Untimed
      exact untimed_dispatch (by exact h) _
  | bankdKaTimeout =>
      obtain rfl := Option.some.inj hi
      rw [bankd_eq]
      exact untimed_dispatch h .kaTimeout
  | bankdExpiry =>
      change (bankd notifies).expire c = some c' at hi
      rw [bankd_eq, linked_lawful.expire_eq, Option.map_eq_some_iff] at hi
      obtain ⟨r, hr, rfl⟩ := hi
      exact SrvConn.untimed_expired hr
  | bankdRx pdu =>
      obtain rfl := Option.some.inj hi
      unfold bankdHandleRx
      split
      · rw [bankd_eq]
        split_ifs
        · exact untimed_dispatch h _
        · exact untimed_dispatch h _
      · rw [dispatch_eq]
        exact untimed_handle h _
      · rw [dispatch_eq]
        exact untimed_handle h _
      · rw [dispatch_eq]
        exact untimed_handle h _
      · exact h
  | _ =>
      obtain rfl := Option.some.inj hi
      rw [dispatch_eq]
      exact untimed_handle h _

theorem input_connected {i : Input} (hl : c.Locked) (hu : c.bankdConn.Untimed)
    (hc : c.bankdConn.fi.state = .connected) (hd : i.dropsBankd = false)
    (hm : i.fromModem = false) (hi : c.input notifies i = some c') :
    c'.bankdConn.fi.state = .connected := by
  have hop : c.mainFi.state = .operational :=
    hl.operational.mpr (SrvConn.isConnected_iff.mpr hc)
  have htx : ∀ (x : Client) (pdu : RsproPDU), x.bankdConn.fi.state = .connected →
      ((linked notifies).dispatch (.rsproTx pdu) x).bankdConn.fi.state = .connected := by
    intro x pdu hx
    rw [dispatch_bankdConn]
    simp only [SrvConn.react, hx, if_true]
  cases i with
  | srvcConnected =>
      obtain rfl := Option.some.inj hi
      simp only [dispatch_eq, handle, hop, reduceCtorEq, if_false]
      exact hc
  | srvcLost =>
      obtain rfl := Option.some.inj hi
      rw [dispatch_eq]
      exact hc
  | srvcConfigId slot => exact Option.some.inj hi ▸ hc
  | srvcConfigBank slot ip port => cases hd
  | srvcResetReq => cases hd
  | bankdDown => cases hd
  | bankdKaTimeout => cases hd
  | mdmStatusInd st => cases hm
  | mdmPtsInd => cases hm
  | mdmTpdu data => cases hm
  | bankdUp =>
      obtain rfl := Option.some.inj hi
      rw [bankd_eq]
      show ((linked notifies).dispatch .tcpUp _).bankdConn.fi.state = _
      rw [dispatch_bankdConn]
      simp only [SrvConn.react, Host.mod, linked, hc, reduceCtorEq, if_false]
  | bankdExpiry =>
      change (bankd notifies).expire c = some c' at hi
      rw [bankd_eq, linked_lawful.expire_eq, Option.map_eq_some_iff] at hi
      obtain ⟨r, hr, _⟩ := hi
      obtain ⟨t, ht, _⟩ := SrvConn.expired_eq hr
      have hnone : c.bankdConn.fi.timer = none := hu hc
      rw [show c.bankdConn.fi.timer = some t from ht] at hnone
      cases hnone
  | bankdRx pdu =>
      obtain rfl := Option.some.inj hi
      cases pdu with
      | connectClientRes identity result =>
          have hid : ¬identity ≠ .remsimBankd := of_decide_eq_false hd
          simp only [bankdHandleRx, bankd_eq]
          rw [if_neg hid, dispatch_bankdConn]
          simp only [SrvConn.react, hc, reduceCtorEq, if_false]
      | tpduCardToModem bs cs data =>
          simp only [bankdHandleRx, dispatch_eq, handle, serve, hop, if_true]
          exact hc
      | setAtrReq slot atr =>
          simp only [bankdHandleRx, dispatch_eq, handle, serve, hop, if_true]
          refine htx _ _ ?_
          split_ifs
          · exact hc
          · exact hc
      | bankSlotStatusInd st =>
          simp only [bankdHandleRx, dispatch_eq, handle, serve, hop, if_true]
          exact hc
      | _ => exact hc

theorem Locked.tx (h : c.Locked) (hu : c.bankdConn.Untimed) (notifies : Stream → Bool)
    (pdu : RsproPDU) (hp : pdu.apdu = none) :
    ((bankd notifies).dispatch (.rsproTx pdu) c).Locked ∧
      ((bankd notifies).dispatch (.rsproTx pdu) c).bankdConn.Untimed ∧
      ((bankd notifies).dispatch (.rsproTx pdu) c).bankdConn.apdus = c.bankdConn.apdus := by
  have he : ServerConnEvent.apdu (.rsproTx pdu) = none := hp
  rw [bankd_eq]
  exact ⟨h.dispatch nofun, untimed_dispatch hu _, (passes_dispatch he c).apdus⟩

theorem Locked.txApdu (h : c.Locked) (hu : c.bankdConn.Untimed)
    (hc : c.bankdConn.fi.state = .connected) {cs : ClientSlotT} {bs : BankSlotT}
    {data : List UInt8} {x : Client}
    (hx : x = (bankd notifies).dispatch (.rsproTx (.tpduModemToCard cs bs data)) c) :
    x.Locked ∧ x.bankdConn.Untimed ∧ x.bankdConn.fi.state = .connected ∧
      x.bankdConn.apdus = c.bankdConn.apdus ++ [data] := by
  rw [bankd_eq] at hx
  have hb : x.bankdConn =
      { c.bankdConn with sent := c.bankdConn.sent ++ [.tpduModemToCard cs bs data] } := by
    rw [hx, dispatch_bankdConn]
    simp only [SrvConn.react, hc, if_true]
  refine ⟨?_, ?_, ?_, ?_⟩
  · rw [hx]
    exact h.dispatch fun he => by cases he
  · rw [hx]
    exact untimed_dispatch hu _
  · rw [hb]
    exact hc
  · rw [hb]
    simp only [SrvConn.apdus, List.filterMap_append]
    rfl

end Client

/-! ### Requests and messages stay in step -/

theorem itmsgAlloc_spec {type : ItmsgType} {status : UInt16} {data : List UInt8} {m : Itmsg}
    (h : itmsgAlloc type status data = some m) :
    m.type = type ∧ m.data = data.take (data.length % 2 ^ 16) := by
  unfold itmsgAlloc at h
  simp only [Option.ite_none_right_eq_some, Option.some.injEq] at h
  obtain ⟨_, rfl⟩ := h
  exact ⟨rfl, rfl⟩

theorem itmsgAlloc_length {type : ItmsgType} {status : UInt16} {data : List UInt8} {m : Itmsg}
    (h : itmsgAlloc type status data = some m) : m.data.length = data.length % 2 ^ 16 := by
  rw [(itmsgAlloc_spec h).2, List.length_take]
  exact Nat.min_eq_left (Nat.mod_le _ _)

theorem itmsgAlloc_isSome (type : ItmsgType) (status : UInt16) {data : List UInt8}
    (h : data.length % 2 ^ 16 ≤ 1016) : ∃ m, itmsgAlloc type status data = some m := by
  unfold itmsgAlloc
  refine ⟨_, if_pos ?_⟩
  unfold sizeofItmsg
  omega

theorem received_eq {m : Itmsg} (h : m.data.length ≤ 1016) : m.received = some m := by
  unfold Itmsg.received sizeofItmsg itBufSize
  refine if_neg ?_
  omega

namespace Driver

variable {notifies : Stream → Bool} {d d' : Driver}

/-- The invariant. -/
structure Tidy (d : Driver) : Prop where
  locked : d.client.Locked
  untimed : d.client.bankdConn.Untimed
  matched : ∀ x ∈ d.returned, ∃ m, x.2 = some m ∧ m.type = x.1.respType
  clean : d.calling = none → d.toClient = [] ∧ d.itMsgq = [] ∧ d.toIfd = []
  underway : ∀ r, d.calling = some r → d.Underway r
  sent : d.client.bankdConn.apdus = d.apdus
  write : d.itMsgq ≠ [] → d.itWrite = true
  atr : d.atr.length ≤ 1016
  small : ∀ m ∈ d.toClient ++ d.itMsgq ++ d.toIfd, m.data.length ≤ 1016

theorem waiting_iff : d.waiting = true ↔ ∃ r data, d.calling = some r ∧ r.apdu = some data ∧
    d.toClient = [] ∧ d.itMsgq = [] ∧ d.toIfd = [] := by
  simp only [waiting, Bool.and_eq_true, List.isEmpty_iff, Option.isSome_iff_exists,
    Option.bind_eq_some_iff]
  constructor
  · rintro ⟨⟨⟨⟨data, r, hr, hd⟩, h₁⟩, h₂⟩, h₃⟩
    exact ⟨r, data, hr, hd, h₁, h₂, h₃⟩
  · rintro ⟨r, data, hr, hd, h₁, h₂, h₃⟩
    exact ⟨⟨⟨⟨data, r, hr, hd⟩, h₁⟩, h₂⟩, h₃⟩

/-- The calls of the frontend that carry no R-APDU only store an ATR. -/
theorem frontendCalls_eq (fs : List FrontendCall) (hn : ∀ f ∈ fs, f.isRApdu = false)
    (d : Driver) (ha : d.atr.length ≤ 1016) :
    ∃ atr, atr.length ≤ 1016 ∧ fs.foldlM frontendCall d = some { d with atr := atr } := by
  induction fs generalizing d with
  | nil => exact ⟨d.atr, ha, rfl⟩
  | cons f fs ih =>
      have hcall : ∃ atr, atr.length ≤ 1016 ∧ d.frontendCall f = some { d with atr := atr } := by
        cases f with
        | handleCard2modem data => cases hn _ List.mem_cons_self
        | handleSetAtr atr =>
            refine ⟨atr.take atrSizeMax, ?_, rfl⟩
            rw [List.length_take]
            unfold atrSizeMax
            omega
        | _ => exact ⟨d.atr, ha, rfl⟩
      obtain ⟨a, hle, hf⟩ := hcall
      obtain ⟨b, hle', hfs⟩ := ih (fun f' hf' => hn f' (List.mem_cons_of_mem _ hf'))
        { d with atr := a } hle
      refine ⟨b, hle', ?_⟩
      rw [List.foldlM_cons, hf]
      exact hfs

theorem Tidy.request {r : IfdRequest} (h : d.Tidy) (hr : r.data.length % 2 ^ 16 ≤ 1016)
    (hs : d.next notifies (.request r) = some d') : d'.Tidy := by
  simp only [next] at hs
  split at hs
  · rename_i hcall
    obtain ⟨m, hm, rfl⟩ := Option.map_eq_some_iff.mp hs
    obtain ⟨h₁, h₂, h₃⟩ := h.clean hcall
    have hlen := itmsgAlloc_length hm
    refine
      { locked := h.locked
        untimed := h.untimed
        matched := h.matched
        clean := nofun
        underway := fun r' hr' => ?_
        sent := ?_
        write := h.write
        atr := h.atr
        small := ?_ }
    · obtain rfl := Option.some.inj hr'
      refine .asked hm ?_ h₂ h₃
      simp only [h₁, List.nil_append]
    · rw [h.sent]
      simp only [apdus, h₁, hcall, Option.bind_none, if_true, List.nil_append, List.cons_ne_nil,
        if_false, Option.toList_none]
    · simp only [h₁, h₂, h₃, List.nil_append, List.append_nil, List.mem_singleton]
      rintro _ rfl
      omega
  · cases hs

/-- A request other than a C-APDU is answered at once. -/
theorem Tidy.answer {r : IfdRequest} {m : Itmsg} {c : Client} {status : UInt16}
    {data : List UInt8} (h : d.Tidy) (hr : d.calling = some r) (hap : r.apdu = none)
    (h₁ : d.toClient = [m]) (h₂ : d.itMsgq = []) (h₃ : d.toIfd = [])
    (hc : c.Locked ∧ c.bankdConn.Untimed ∧ c.bankdConn.apdus = d.client.bankdConn.apdus)
    (hdata : data.length ≤ 1016)
    (hs : respond r.respType status data { d with client := c, toClient := [] } = some d') :
    d'.Tidy := by
  obtain ⟨hl, hu, ha⟩ := hc
  obtain ⟨x, hx, rfl⟩ := Option.map_eq_some_iff.mp hs
  have hlen := itmsgAlloc_length hx
  refine
    { locked := hl
      untimed := hu
      matched := h.matched
      clean := fun hn => absurd (hr.symm.trans hn) nofun
      underway := fun r' hr' => ?_
      sent := ?_
      write := fun _ => rfl
      atr := h.atr
      small := ?_ }
  · obtain rfl : r = r' := Option.some.inj (hr.symm.trans hr')
    refine .answered (itmsgAlloc_spec hx).1 rfl ?_
    simp only [enqueueToIfd, h₂, h₃, List.nil_append, List.append_nil]
  · refine ha.trans (h.sent.trans ?_)
    simp only [apdus, enqueueToIfd, h₁, hr, hap, Option.bind_some, Option.toList_none,
      List.cons_ne_nil, if_false, if_true]
  · simp only [enqueueToIfd, h₂, h₃, List.nil_append, List.append_nil, List.mem_singleton]
    rintro _ rfl
    have hle : data.length % 2 ^ 16 ≤ data.length := Nat.mod_le _ _
    omega

theorem Tidy.forward {data : List UInt8} {m : Itmsg} (h : d.Tidy)
    (hr : d.calling = some (.cApdu data)) (hm : (IfdRequest.cApdu data).msg = some m)
    (h₁ : d.toClient = [m]) (h₂ : d.itMsgq = []) (h₃ : d.toIfd = [])
    (hc : d.client.bankdConn.fi.state = .connected) {cs : ClientSlotT} {bs : BankSlotT}
    {x : Client} (hx : x = (Client.bankd notifies).dispatch
      (.rsproTx (.tpduModemToCard cs bs m.data)) d.client) :
    Tidy { d with client := x, toClient := [] } := by
  obtain ⟨hl, hu, hcon, ha⟩ := h.locked.txApdu h.untimed hc hx
  have hdata : m.data = data.take (data.length % 2 ^ 16) := (itmsgAlloc_spec hm).2
  refine
    { locked := hl
      untimed := hu
      matched := h.matched
      clean := fun hn => absurd (hr.symm.trans hn) nofun
      underway := fun r' hr' => ?_
      sent := ?_
      write := h.write
      atr := h.atr
      small := ?_ }
  · obtain rfl : _ = r' := Option.some.inj (hr.symm.trans hr')
    exact .waiting rfl rfl h₂ h₃ hcon
  · refine ha.trans ?_
    rw [h.sent]
    simp only [apdus, h₁, hr, Option.bind_some, IfdRequest.apdu,
      Option.toList_some, List.cons_ne_nil, if_false, if_true, List.append_nil, hdata]
  · simp only [h₂, h₃, List.append_nil]
    nofun

theorem Tidy.clientRead (h : d.Tidy)
    (hc : d.toClient.head?.all (fun m => m.type ≠ .cApduReq) = true ∨
      d.client.bankdConn.fi.state = .connected)
    (hs : d.next notifies .clientRead = some d') : d'.Tidy := by
  cases hcall : d.calling with
  | none =>
      simp only [next, (h.clean hcall).1] at hs
      cases hs
  | some r =>
      cases h.underway r hcall with
      | answered _ h₁ _ =>
          simp only [next, h₁] at hs
          cases hs
      | waiting _ h₁ _ _ _ =>
          simp only [next, h₁] at hs
          cases hs
      | asked hm h₁ h₂ h₃ =>
          rename_i m
          have hsmall : m.data.length ≤ 1016 := h.small m (by rw [h₁]; exact List.mem_cons_self)
          simp only [next, h₁, received_eq hsmall] at hs
          have htype : m.type = r.reqType := (itmsgAlloc_spec hm).1
          have htx := fun pdu => h.locked.tx h.untimed notifies pdu
          unfold handleItMsg at hs
          cases r with
          | cardPres =>
              rw [htype] at hs
              exact h.answer hcall rfl h₁ h₂ h₃ ⟨h.locked, h.untimed, rfl⟩ (Nat.zero_le _) hs
          | atr =>
              rw [htype] at hs
              exact h.answer hcall rfl h₁ h₂ h₃ ⟨h.locked, h.untimed, rfl⟩ h.atr hs
          | powerOff =>
              rw [htype] at hs
              exact h.answer hcall rfl h₁ h₂ h₃ (htx _ rfl) (Nat.zero_le _) hs
          | powerOn =>
              rw [htype] at hs
              exact h.answer hcall rfl h₁ h₂ h₃ (htx _ rfl) (Nat.zero_le _) hs
          | reset =>
              rw [htype] at hs
              obtain ⟨hl, hu, ha⟩ := htx (rsproGenClientSlotStatusInd ⟨1, 1⟩) rfl
              obtain ⟨hl', hu', ha'⟩ :=
                hl.tx hu notifies (rsproGenClientSlotStatusInd ⟨0, 1⟩) rfl
              exact h.answer hcall rfl h₁ h₂ h₃ ⟨hl', hu', ha'.trans ha⟩ (Nat.zero_le _) hs
          | cApdu data =>
              have hcon : d.client.bankdConn.fi.state = .connected := by
                refine hc.resolve_left fun hall => ?_
                rw [h₁] at hall
                exact absurd htype (of_decide_eq_true hall)
              rw [htype] at hs
              exact Option.some.inj hs ▸ h.forward hcall hm h₁ h₂ h₃ hcon rfl

theorem Tidy.calling_of_itMsgq (h : d.Tidy) (hq : d.itMsgq ≠ []) : ∃ r, d.calling = some r := by
  cases hcall : d.calling with
  | none => exact absurd (h.clean hcall).2.1 hq
  | some r => exact ⟨r, rfl⟩

theorem Tidy.clientWrite (h : d.Tidy) (hs : d.next notifies .clientWrite = some d') : d'.Tidy := by
  simp only [next, Option.ite_none_right_eq_some] at hs
  obtain ⟨_, hs⟩ := hs
  split at hs
  · rename_i hq
    obtain rfl := Option.some.inj hs
    refine { h with write := fun hne => absurd hq hne, underway := fun r hr => ?_ }
    cases h.underway r hr with
    | asked hm h₁ h₂ h₃ => exact .asked hm h₁ h₂ h₃
    | answered ht h₁ h₂ => exact .answered ht h₁ h₂
    | waiting ha h₁ h₂ h₃ hc => exact .waiting ha h₁ h₂ h₃ hc
  · rename_i m rest hq
    obtain rfl := Option.some.inj hs
    obtain ⟨r, hcall⟩ := h.calling_of_itMsgq (by rw [hq]; exact List.cons_ne_nil _ _)
    have hw : m.type = r.respType ∧ d.toClient = [] ∧ rest = [] ∧ d.toIfd = [] := by
      cases h.underway r hcall with
      | asked _ _ h₂ _ => exact absurd (hq.symm.trans h₂) (List.cons_ne_nil _ _)
      | waiting _ _ h₂ _ _ => exact absurd (hq.symm.trans h₂) (List.cons_ne_nil _ _)
      | answered ht h₁ h₂ =>
          rw [hq, List.cons_append, List.cons.injEq, List.append_eq_nil_iff] at h₂
          obtain ⟨rfl, hrest, h₃⟩ := h₂
          exact ⟨ht, h₁, hrest, h₃⟩
    obtain ⟨ht, h₁, rfl, h₃⟩ := hw
    refine
      { locked := h.locked
        untimed := h.untimed
        matched := h.matched
        clean := fun hn => absurd (hcall.symm.trans hn) nofun
        underway := fun r' hr' => ?_
        sent := h.sent
        write := fun hne => absurd rfl hne
        atr := h.atr
        small := ?_ }
    · obtain rfl : r = r' := Option.some.inj (hcall.symm.trans hr')
      refine .answered ht h₁ ?_
      simp only [h₃, List.nil_append]
    · have hsmall := h.small
      simp only [hq, h₁, h₃, List.nil_append, List.append_nil] at hsmall ⊢
      exact hsmall

theorem Tidy.ifdRead (h : d.Tidy) (hs : d.next notifies .ifdRead = some d') : d'.Tidy := by
  simp only [next] at hs
  split at hs
  · rename_i r m rest hcall hifd
    obtain rfl := Option.some.inj hs
    have hw : m.type = r.respType ∧ d.toClient = [] ∧ rest = [] ∧ d.itMsgq = [] := by
      cases h.underway r hcall with
      | asked _ _ _ h₃ =>
          rw [h₃] at hifd
          cases hifd
      | waiting _ _ _ h₃ _ =>
          rw [h₃] at hifd
          cases hifd
      | answered ht h₁ h₂ =>
          cases hq : d.itMsgq with
          | nil =>
              rw [hq, hifd, List.nil_append, List.cons.injEq] at h₂
              obtain ⟨rfl, hrest⟩ := h₂
              exact ⟨ht, h₁, hrest, rfl⟩
          | cons a l =>
              rw [hq, hifd, List.cons_append, List.cons.injEq, List.append_eq_nil_iff] at h₂
              exact absurd h₂.2.2 nofun
    obtain ⟨ht, h₁, rfl, h₂⟩ := hw
    have hsmall : m.data.length ≤ 1016 :=
      h.small m (List.mem_append_right _ (hifd ▸ List.mem_cons_self))
    refine
      { locked := h.locked
        untimed := h.untimed
        matched := fun x hx => ?_
        clean := fun _ => ⟨h₁, h₂, rfl⟩
        underway := nofun
        sent := h.sent.trans ?_
        write := h.write
        atr := h.atr
        small := ?_ }
    · rcases List.mem_append.mp hx with hx | hx
      · exact h.matched x hx
      · obtain rfl := List.mem_singleton.mp hx
        exact ⟨m, received_eq hsmall, ht⟩
    · simp only [apdus, h₁, hcall, if_true, Option.bind_some, Option.bind_none, Option.toList_none,
        List.append_nil, List.filterMap_append, List.filterMap_cons, List.filterMap_nil]
      cases r.apdu with
      | none => rfl
      | some data => rfl
    · simp only [h₁, h₂, List.append_nil]
      nofun
  · cases hs

theorem Tidy.passes {c : Client} {a : List UInt8} (h : d.Tidy)
    (hl : c.Locked) (hu : c.bankdConn.Untimed) (hp : d.client.Passes c) (ha : a.length ≤ 1016)
    (hc : d.waiting = true → d.client.bankdConn.fi.state = .connected →
      c.bankdConn.fi.state = .connected) : Tidy { d with client := c, atr := a } :=
  { locked := hl
    untimed := hu
    matched := h.matched
    clean := h.clean
    underway := fun r hr => by
      cases h.underway r hr with
      | asked hm h₁ h₂ h₃ => exact .asked hm h₁ h₂ h₃
      | answered ht h₁ h₂ => exact .answered ht h₁ h₂
      | waiting hap h₁ h₂ h₃ hcon =>
          exact .waiting hap h₁ h₂ h₃ (hc (waiting_iff.mpr ⟨r, _, hr, hap, h₁, h₂, h₃⟩) hcon)
    sent := hp.apdus.trans h.sent
    write := h.write
    atr := ha
    small := h.small }

theorem Tidy.rApdu {c : Client} {data : List UInt8} (h : d.Tidy) (hw : d.waiting = true)
    (hc : c.Locked ∧ c.bankdConn.Untimed ∧ c.bankdConn.apdus = d.client.bankdConn.apdus)
    (hlen : data.length % 2 ^ 16 ≤ 1016)
    (hs : respond .rApduInd 0 data { d with client := c } = some d') : d'.Tidy := by
  obtain ⟨hl, hu, ha⟩ := hc
  obtain ⟨r, x, hr, hap, h₁, h₂, h₃⟩ := waiting_iff.mp hw
  obtain ⟨m, hm, rfl⟩ := Option.map_eq_some_iff.mp hs
  have hmlen := itmsgAlloc_length hm
  refine
    { locked := hl
      untimed := hu
      matched := h.matched
      clean := fun hn => absurd (hr.symm.trans hn) nofun
      underway := fun r' hr' => ?_
      sent := ha.trans h.sent
      write := fun _ => rfl
      atr := h.atr
      small := ?_ }
  · obtain rfl : r = r' := Option.some.inj (hr.symm.trans hr')
    have htype : m.type = r.respType := by
      cases r with
      | cApdu y => exact (itmsgAlloc_spec hm).1
      | _ => cases hap
    refine .answered htype h₁ ?_
    simp only [enqueueToIfd, h₂, h₃, List.nil_append, List.append_nil]
  · simp only [enqueueToIfd, h₁, h₂, h₃, List.nil_append, List.append_nil, List.mem_singleton]
    rintro _ rfl
    omega

theorem Tidy.client {l : Client.Label} (h : d.Tidy) (ho : d.Orderly (.client l))
    (hs : d.next notifies (.client l) = some d') : d'.Tidy := by
  simp only [next, Option.ite_none_left_eq_some] at hs
  obtain ⟨hm, hs⟩ := hs
  obtain ⟨c, hc, hs⟩ := Option.bind_eq_some_iff.mp hs
  simp only [Client.next, Option.ite_none_right_eq_some] at hc
  obtain ⟨_, hc⟩ := hc
  have hl : Client.Locked { d.client with now := l.time } := h.locked.congr rfl rfl id rfl rfl
  have hu : c.bankdConn.Untimed :=
    Client.untimed_input (c := { d.client with now := l.time }) h.untimed hc
  have hm : l.input.fromModem = false := eq_false_of_ne_true hm
  rcases Client.input_cases hm hc with hp | ⟨bs, cs, data, hi, hop, rfl⟩
  · obtain ⟨fs, hfs, hn⟩ := hp.frontend
    change c.frontend = d.client.frontend ++ fs at hfs
    rw [hfs, List.drop_left] at hs
    obtain ⟨a, ha, hcalls⟩ := frontendCalls_eq fs hn { d with client := c } h.atr
    obtain rfl := Option.some.inj (hcalls.symm.trans hs)
    refine h.passes (hl.input hc) hu ⟨⟨fs, hfs, hn⟩, hp.apdus⟩ ha fun hw hcon => ?_
    exact Client.input_connected hl h.untimed hcon (ho.1 hw) hm hc
  · have hdrop : ((Client.call [.handleCard2modem data]
        { d.client with now := l.time }).frontend.drop d.client.frontend.length) =
          [.handleCard2modem data] := List.drop_left
    rw [hdrop, List.foldlM_cons] at hs
    simp only [List.foldlM_nil, bind_pure] at hs
    obtain ⟨t, i⟩ := l
    obtain rfl : i = .bankdRx (.tpduCardToModem bs cs data) := hi
    obtain ⟨hw, hlen⟩ := ho.2 hop data rfl
    exact h.rApdu hw ⟨hl.input hc, hu, rfl⟩ hlen hs

theorem CanReturn.cons {l : Label} (hs : d.next notifies l = some d') (hl : l.serves = true)
    (h : d'.CanReturn notifies) : d.CanReturn notifies := by
  obtain ⟨ls, u, hls, he, hu⟩ := h
  refine ⟨l :: ls, u, List.forall_mem_cons.mpr ⟨hl, hls⟩, ?_, hu⟩
  simp only [Transition.exec, hs, Option.bind_some, he]

theorem canReturn_toIfd {r : IfdRequest} {m : Itmsg} {rest : List Itmsg}
    (hcall : d.calling = some r) (h₃ : d.toIfd = m :: rest) : d.CanReturn notifies := by
  have hs : d.next notifies .ifdRead = some
      { d with toIfd := rest, calling := none, returned := d.returned ++ [(r, m.received)] } := by
    simp only [next, hcall, h₃]
  exact .cons hs rfl ⟨[], _, nofun, rfl, rfl⟩

theorem canReturn_itMsgq {r : IfdRequest} {m : Itmsg} {rest : List Itmsg} (h : d.Tidy)
    (hcall : d.calling = some r) (h₂ : d.itMsgq = m :: rest) : d.CanReturn notifies := by
  have hw : d.itWrite = true := h.write (by rw [h₂]; exact List.cons_ne_nil _ _)
  have hs : d.next notifies .clientWrite =
      some { d with itMsgq := rest, toIfd := d.toIfd ++ [m] } := by
    simp only [next, hw, h₂, if_true]
  refine .cons hs rfl ?_
  cases h₃ : d.toIfd with
  | nil => exact canReturn_toIfd (r := r) hcall rfl
  | cons a l => exact canReturn_toIfd (r := r) hcall rfl

/-- The bankd answers with a status word. -/
def answer (d : Driver) : Label :=
  .client ⟨d.client.now, .bankdRx (.tpduCardToModem ⟨0, 0⟩ ⟨0, 0⟩ [0x90, 0x00])⟩

theorem next_answer (notifies : Stream → Bool) (h : d.Tidy)
    (hc : d.client.bankdConn.fi.state = .connected) :
    ∃ c, d.next notifies d.answer = some (enqueueToIfd ⟨.rApduInd, 0, [0x90, 0x00]⟩
      { d with client := c }) := by
  have hop : d.client.mainFi.state = .operational :=
    h.locked.operational.mpr (SrvConn.isConnected_iff.mpr hc)
  have hin : d.client.next notifies
      ⟨d.client.now, .bankdRx (.tpduCardToModem ⟨0, 0⟩ ⟨0, 0⟩ [0x90, 0x00])⟩ =
        some (d.client.call [.handleCard2modem [0x90, 0x00]]) := by
    simp only [Client.next, Nat.le_refl, if_true, Client.input, Client.bankdHandleRx,
      Client.dispatch_eq, Client.handle, Client.serve, hop]
  have hdrop : (d.client.call [.handleCard2modem [0x90, 0x00]]).frontend.drop
      d.client.frontend.length = [.handleCard2modem [0x90, 0x00]] := List.drop_left
  refine ⟨d.client.call [.handleCard2modem [0x90, 0x00]], ?_⟩
  simp only [answer, next, Client.Input.fromModem, hin, Option.bind_some, hdrop]
  rfl

theorem canReturn_waiting {r : IfdRequest} (h : d.Tidy) (hcall : d.calling = some r)
    (hw : d.waiting = true) (hc : d.client.bankdConn.fi.state = .connected) :
    d.CanReturn notifies := by
  obtain ⟨c, hs⟩ := next_answer notifies h hc
  have ho : d.Orderly d.answer := by
    refine ⟨fun _ => rfl, fun _ data hdata => ⟨hw, ?_⟩⟩
    obtain rfl : [0x90, 0x00] = data := Option.some.inj hdata
    decide
  have hq : d.itMsgq = [] := by
    obtain ⟨_, _, _, _, _, hq, _⟩ := waiting_iff.mp hw
    exact hq
  have hq' : (enqueueToIfd ⟨.rApduInd, 0, [0x90, 0x00]⟩ { d with client := c }).itMsgq =
      [⟨.rApduInd, 0, [0x90, 0x00]⟩] := by
    simp only [enqueueToIfd, hq, List.nil_append]
  exact .cons hs rfl (canReturn_itMsgq (r := r) (h.client ho hs) hcall hq')

theorem clientRead_asked (notifies : Stream → Bool) {r : IfdRequest} {m : Itmsg} (h : d.Tidy)
    (hcall : d.calling = some r)
    (hm : r.msg = some m) (h₁ : d.toClient = [m]) :
    ∃ d', d.next notifies .clientRead = some d' ∧ d'.calling = some r ∧ d'.toClient = [] := by
  have hsmall : m.data.length ≤ 1016 := h.small m (by rw [h₁]; exact List.mem_cons_self)
  have htype : m.type = r.reqType := (itmsgAlloc_spec hm).1
  have hresp : ∀ (u : Driver) (type : ItmsgType) (status : UInt16) (data : List UInt8),
      data.length ≤ 1016 → u.calling = some r → u.toClient = [] →
      ∃ d', u.respond type status data = some d' ∧ d'.calling = some r ∧ d'.toClient = [] := by
    intro u type status data hlen hu hu'
    have hle : data.length % 2 ^ 16 ≤ data.length := Nat.mod_le _ _
    obtain ⟨x, hx⟩ := itmsgAlloc_isSome type status (Nat.le_trans hle hlen)
    refine ⟨u.enqueueToIfd x, ?_, hu, hu'⟩
    unfold respond
    rw [hx]
    rfl
  simp only [next, h₁, received_eq hsmall]
  unfold handleItMsg
  rw [htype]
  cases r with
  | cardPres => exact hresp _ _ _ _ (Nat.zero_le _) hcall rfl
  | atr => exact hresp _ _ _ _ h.atr hcall rfl
  | powerOff => exact hresp _ _ _ _ (Nat.zero_le _) hcall rfl
  | powerOn => exact hresp _ _ _ _ (Nat.zero_le _) hcall rfl
  | reset => exact hresp _ _ _ _ (Nat.zero_le _) hcall rfl
  | cApdu data => exact ⟨_, rfl, hcall, rfl⟩

theorem Tidy.returns {r : IfdRequest} (h : d.Tidy) (hcall : d.calling = some r)
    (hc : r.apdu = none ∨ d.toClient = [] ∨ d.client.bankdConn.fi.state = .connected) :
    d.CanReturn notifies := by
  -- once the request has been read, there is a message, or the bankd has the C-APDU
  have hread : ∀ u : Driver, u.Tidy → u.calling = some r → u.toClient = [] →
      u.CanReturn notifies := by
    intro u hu hr hr'
    cases hu.underway r hr with
    | asked _ h₁ _ _ => exact absurd (h₁.symm.trans hr') (List.cons_ne_nil _ _)
    | waiting ha h₁ h₂ h₃ hcon =>
        exact canReturn_waiting hu hr (waiting_iff.mpr ⟨r, _, hr, ha, h₁, h₂, h₃⟩) hcon
    | answered _ _ h₂ =>
        cases hq : u.itMsgq with
        | nil =>
            rw [hq, List.nil_append] at h₂
            exact canReturn_toIfd hr h₂
        | cons a l => exact canReturn_itMsgq hu hr hq
  cases h.underway r hcall with
  | asked hm h₁ h₂ h₃ =>
      rename_i m
      obtain ⟨u, hs, hr, hr'⟩ := clientRead_asked notifies h hcall hm h₁
      refine .cons hs rfl (hread u (h.clientRead ?_ hs) hr hr')
      rcases hc with hap | hcl | hcon
      · refine .inl ?_
        have htype : m.type = r.reqType := (itmsgAlloc_spec hm).1
        rw [h₁, List.head?_cons, Option.all_some, htype]
        cases r with
        | cApdu data => cases hap
        | _ => rfl
      · exact absurd (h₁.symm.trans hcl) (List.cons_ne_nil _ _)
      · exact .inr hcon
  | answered ht h₁ h₂ => exact hread d h hcall h₁
  | waiting ha h₁ h₂ h₃ hcon => exact hread d h hcall h₁

instance (d : Driver) : ∀ l, Decidable (d.Orderly l)
  | .request r => inferInstanceAs (Decidable (r.data.length % 2 ^ 16 ≤ 1016))
  | .clientRead =>
      inferInstanceAs (Decidable (d.toClient.head?.all (fun m => m.type ≠ .cApduReq) = true ∨
        d.client.bankdConn.fi.state = .connected))
  | .clientWrite => .isTrue trivial
  | .ifdRead => .isTrue trivial
  | .client l =>
      inferInstanceAs (Decidable ((d.waiting = true → l.input.dropsBankd = false) ∧
        (d.client.mainFi.state = .operational → ∀ data ∈ l.input.rApdu,
          d.waiting = true ∧ data.length % 2 ^ 16 ≤ 1016)))

/-- A new channel of a client. -/
def opened : Driver where
  client := Client.started
  itMsgq := []
  itWrite := false
  atr := []
  toClient := []
  toIfd := []
  calling := none
  returned := []

end Driver
end Remsim
