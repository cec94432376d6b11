import Remsim.RsproClient
import Remsim.Transition

/-! # The main state machine of a client (`main_fsm.c`, `remsim_client.c`)

`CLIENT_MAIN` with the `RSPRO_CLIENT` FSM of its connection to the bankd.  Either machine
dispatches to the other while it is processing an event: a configuration for a bankd or the entry
of `UNCONFIGURED` commands the connection, and the connection reports to `CLIENT_MAIN` when it
enters or leaves `CONNECTED`.  As in `RsproClient`, handlers take the machine that nested calls go
to as an argument, and `mainMachine n` allows `n` levels of nesting, of which four are used
(`dispatch_handle`).

The connection to the server is not part of the model: what it reports, connected or lost, is an
input, and what is sent to the server is recorded in `toServer`.  Event scripts are left out.
`Client.clslot` is `srv_conn.clslot`, which `remsim_client_create()` always allocates. -/

namespace Remsim

/-- `enum main_fsm_state`. -/
inductive MainState where
  | init
  | unconfigured
  | waitBankd
  | operational
deriving DecidableEq, Repr

/-- The flags of `struct frontend_phys_status` that the bankd reads: 0, 1, or -1 if unknown. -/
structure PhysStatus where
  resetActive : ℤ
  vccPresent : ℤ
deriving DecidableEq, Repr

/-- `enum main_fsm_event`, with the data passed along. -/
inductive MainEvent where
  | srvcConnected
  | srvcLost
  | srvcConfigBank (bankSlot : BankSlotT) (ip : UInt32) (port : ℤ)
  | srvcResetReq
  | bankdConnected
  | bankdLost
  | bankdTpdu (data : List UInt8)
  | bankdAtr (atr : List UInt8)
  | bankdSlotStatus (status : SlotPhysStatus)
  | mdmStatusInd (status : PhysStatus)
  | mdmPtsInd
  | mdmTpdu (data : List UInt8)
deriving DecidableEq, Repr

/-- Calls of the frontend. -/
inductive FrontendCall where
  | requestSimRemote
  | requestSimLocal
  | requestCardInsert
  | requestCardRemove
  | requestModemReset
  | handleSetAtr (atr : List UInt8)
  | handleCard2modem (data : List UInt8)
  | handleSlotStatus (status : SlotPhysStatus)
deriving DecidableEq, Repr

/-- `struct bankd_client`, the calls of its frontend, and the time. -/
structure Client where
  bankdConn : SrvConn
  mainFi : Fsm.Inst MainState
  clslot : ClientSlotT
  bankdSlot : BankSlot
  cfgAtr : List UInt8
  atrIgnoreRspro : Bool
  toServer : List RsproPDU
  frontend : List FrontendCall
  now : ℕ
deriving DecidableEq, Repr

namespace MainState

/-- The events a state permits. -/
def inEventMask : MainState → MainEvent → Bool
  | .init, .srvcConnected => true
  | .unconfigured, .srvcConfigBank _ _ _ => true
  | .waitBankd, .srvcConfigBank _ _ _ | .waitBankd, .bankdConnected => true
  | .operational, .srvcConfigBank _ _ _ | .operational, .bankdLost
  | .operational, .bankdTpdu _ | .operational, .bankdAtr _ | .operational, .bankdSlotStatus _
  | .operational, .mdmStatusInd _ | .operational, .mdmPtsInd | .operational, .mdmTpdu _ => true
  | _, _ => false

/-- The states that may follow a state. -/
def outStateMask : MainState → MainState → Bool
  | .init, .unconfigured => true
  | .unconfigured, .init | .unconfigured, .waitBankd => true
  | .waitBankd, .init | .waitBankd, .unconfigured | .waitBankd, .operational => true
  | .operational, .init | .operational, .unconfigured | .operational, .waitBankd => true
  | _, _ => false

end MainState

/-- `.allstate_event_mask`. -/
def MainEvent.allstate : MainEvent → Bool
  | .srvcLost | .srvcResetReq => true
  | _ => false

/-- The event that a connection to a bankd sends its parent. -/
def ParentEvent.toMain : ParentEvent → MainEvent
  | .conn => .bankdConnected
  | .disc => .bankdLost

/-- `rspro_gen_ClientSlotStatusInd()`. -/
def rsproGenClientSlotStatusInd (st : PhysStatus) : RsproPDU :=
  .clientSlotStatusInd
    ⟨decide (st.resetActive ≠ 0), if 0 ≤ st.vccPresent then some (st.vccPresent ≠ 0) else none⟩

namespace Client

/-- The machine that nested calls go to. -/
abbrev NestedMain := Fsm.Machine Client MainState MainEvent

/-- Calls of the frontend are recorded. -/
def call (fs : List FrontendCall) (c : Client) : Client := { c with frontend := c.frontend ++ fs }

variable (notifies : Stream → Bool) (M : NestedMain)

/-- The connection to the bankd as part of the client. -/
def bankdHost : Host Client where
  get := bankdConn
  set b c := { c with bankdConn := b }
  now := now
  parent e := M.dispatch e.toMain
  notifies := notifies

/-- `osmo_fsm_inst_dispatch(bc->bankd_conn.fi, ..)`. -/
def toBankd (e : ServerConnEvent) : Client → Client := (bankdHost notifies M).dispatch e

/-- `server_conn_send_rspro(&bc->srv_conn, ..)`. -/
def toSrv (pdu : RsproPDU) (c : Client) : Client := { c with toServer := c.toServer ++ [pdu] }

/-- The bankd and the slot that the server wants to be used. -/
def configure (bankSlot : BankSlotT) (ip : UInt32) (port : ℤ) (c : Client) : Client :=
  { c with
    bankdConn := { c.bankdConn with serverHost := ip, serverPort := .ofInt port }
    bankdSlot := rspro2bankSlot bankSlot }

/-- `main_st_operational()`, event `MF_E_SRVC_CONFIG_BANK`; port 0 means that there is no bankd. -/
def srvcConfigBank (bankSlot : BankSlotT) (ip : UInt32) (port : ℤ) (c : Client) : Client :=
  let c := c.configure bankSlot ip port
  let c :=
    if c.bankdConn.serverPort = 0 then M.stateChg .unconfigured 0 0 c
    else toBankd notifies M .establish (M.stateChg .waitBankd 0 0 c)
  c.toSrv (.configClientBankRes .ok)

/-- `main_st_init()`. -/
def mainStInit : MainEvent → Client → Client
  | .srvcConnected => M.stateChg .unconfigured 0 0
  | _ => id

/-- `main_st_unconfigured()`. -/
def mainStUnconfigured : MainEvent → Client → Client
  | .srvcConfigBank slot ip port => srvcConfigBank notifies M slot ip port
  | _ => id

/-- `main_st_wait_bankd()`. -/
def mainStWaitBankd : MainEvent → Client → Client
  | .srvcConfigBank slot ip port => srvcConfigBank notifies M slot ip port
  | .bankdConnected => M.stateChg .operational 0 0
  | _ => id

/-- `main_st_operational()`. -/
def mainStOperational : MainEvent → Client → Client
  | .bankdLost => M.stateChg .waitBankd 0 0
  | .srvcConfigBank slot ip port => srvcConfigBank notifies M slot ip port
  | .bankdTpdu data => call [.handleCard2modem data]
  | .bankdAtr atr => fun c =>
      toBankd notifies M (.rsproTx (.setAtrRes .ok))
        (if c.atrIgnoreRspro then c else c.call [.handleSetAtr atr])
  | .bankdSlotStatus st => call [.handleSlotStatus st]
  | .mdmStatusInd st => toBankd notifies M (.rsproTx (rsproGenClientSlotStatusInd st))
  | .mdmTpdu data => fun c =>
      toBankd notifies M (.rsproTx (.tpduModemToCard c.clslot (bankSlot2rspro c.bankdSlot) data)) c
  | _ => id

/-- The actions of the states. -/
def action : MainState → MainEvent → Client → Client
  | .init => mainStInit M
  | .unconfigured => mainStUnconfigured notifies M
  | .waitBankd => mainStWaitBankd notifies M
  | .operational => mainStOperational notifies M

/-- The calls of `main_st_operational_onenter()`. -/
def enterCalls (c : Client) : List FrontendCall :=
  [.requestSimRemote, .handleSetAtr c.cfgAtr, .requestCardInsert, .requestModemReset]

/-- The calls of `main_st_operational_onleave()`. -/
def leaveCalls : List FrontendCall := [.requestCardRemove, .requestSimLocal, .requestModemReset]

/-- `main_st_unconfigured_onenter()` and `main_st_operational_onenter()`. -/
def onenter : MainState → Client → Client
  | .unconfigured => toBankd notifies M .disconnect
  | .operational => fun c => c.call c.enterCalls
  | _ => id

/-- `main_st_operational_onleave()`. -/
def onleave : MainState → Client → Client
  | .operational => call leaveCalls
  | _ => id

/-- `main_allstate_action()`. -/
def mainAllstateAction : MainEvent → Client → Client
  | .srvcResetReq => M.stateChg .unconfigured 0 0
  | _ => id

/-- The FSM with a bound on the depth of nested calls; it has no timer. -/
def mainMachine : ℕ → NestedMain
  | 0 => Fsm.Machine.inert mainFi
  | n + 1 =>
      { inst := mainFi
        setInst := fun fi c => { c with mainFi := fi }
        now := now
        inEventMask := MainState.inEventMask
        outStateMask := MainState.outStateMask
        allstateEventMask := MainEvent.allstate
        action := action notifies (mainMachine n)
        allstateAction := mainAllstateAction (mainMachine n)
        onenter := onenter notifies (mainMachine n)
        onleave := onleave
        timerCb := fun _ => id }

/-- The depth that nested calls reach. -/
def mainDepth : ℕ := 4

/-- `osmo_fsm_inst_dispatch(bc->main_fi, ..)`. -/
def dispatch (e : MainEvent) : Client → Client := (mainMachine notifies mainDepth).dispatch e

/-- The connection to the bankd with `CLIENT_MAIN` as its parent. -/
def bankd : Host Client := bankdHost notifies (mainMachine notifies mainDepth)

/-- `bankd_handle_rx()`. -/
def bankdHandleRx : RsproPDU → Client → Client
  | .connectClientRes identity result =>
      if identity ≠ .remsimBankd then (bankd notifies).dispatch .disconnect
      else (bankd notifies).dispatch (.clientConnRes result)
  | .tpduCardToModem _ _ data => dispatch notifies (.bankdTpdu data)
  | .setAtrReq _ atr => dispatch notifies (.bankdAtr atr)
  | .bankSlotStatusInd st => dispatch notifies (.bankdSlotStatus st)
  | _ => id

/-- `srvc_handle_rx()`, case `configClientIdReq`. -/
def configClientId (clientSlot : ClientSlotT) (c : Client) : Client :=
  toSrv (.configClientIdRes .ok)
    { c with
      clslot := clientSlot
      bankdConn := { c.bankdConn with clslot := some clientSlot } }

/-- What happens to a client. -/
inductive Input where
  | srvcConnected
  | srvcLost
  | srvcConfigId (clientSlot : ClientSlotT)
  | srvcConfigBank (bankSlot : BankSlotT) (ip : UInt32) (port : ℤ)
  /-- `MF_E_SRVC_RESET_REQ`, which nothing dispatches yet. -/
  | srvcResetReq
  | bankdUp
  | bankdDown
  | bankdKaTimeout
  | bankdRx (pdu : RsproPDU)
  | bankdExpiry
  | mdmStatusInd (status : PhysStatus)
  | mdmPtsInd
  | mdmTpdu (data : List UInt8)
deriving DecidableEq, Repr

/-- An input is processed. -/
def input (c : Client) : Input → Option Client
  | .srvcConnected => some (c.dispatch notifies .srvcConnected)
  | .srvcLost => some (c.dispatch notifies .srvcLost)
  | .srvcConfigId slot => some (c.configClientId slot)
  | .srvcConfigBank slot ip port => some (c.dispatch notifies (.srvcConfigBank slot ip port))
  | .srvcResetReq => some (c.dispatch notifies .srvcResetReq)
  | .bankdUp => some ((bankd notifies).srvcConnectCb c)
  | .bankdDown => some ((bankd notifies).streamDown c)
  | .bankdKaTimeout => some ((bankd notifies).dispatch .kaTimeout c)
  | .bankdRx pdu => some (c.bankdHandleRx notifies pdu)
  | .bankdExpiry => (bankd notifies).expire c
  | .mdmStatusInd st => some (c.dispatch notifies (.mdmStatusInd st))
  | .mdmPtsInd => some (c.dispatch notifies .mdmPtsInd)
  | .mdmTpdu data => some (c.dispatch notifies (.mdmTpdu data))

/-- An input at a time. -/
structure Label where
  time : ℕ
  input : Input
deriving DecidableEq, Repr

/-- The successor state, if the step can happen. -/
def next (c : Client) (l : Label) : Option Client :=
  if c.now ≤ l.time then input notifies { c with now := l.time } l.input else none

/-- The state after `remsim_client_create()`. -/
def Initial (c : Client) : Prop :=
  c.mainFi = ⟨.init, none⟩ ∧ c.bankdConn.fi = ⟨.init, none⟩ ∧ c.bankdConn.conn = none ∧
    c.frontend = []

/-- All runs of a client. -/
def lts : Transition.Lts Client Label := Transition.ofFun Initial (next notifies)

end Client

/-! ### What a connection tells its parent -/

/-- What a parent is sent, given whether the state was `CONNECTED` and whether it is now. -/
def ParentEvent.change : Bool → Bool → List ParentEvent
  | true, false => [.disc]
  | false, true => [.conn]
  | _, _ => []

namespace SrvConn

variable {notifies : Stream → Bool} {now : ℕ} {c : SrvConn}

/-- The connection is `CONNECTED`. -/
def isConnected (c : SrvConn) : Bool := decide (c.fi.state = .connected)

/-- The connection is in `INIT` with no socket. -/
def Idle (c : SrvConn) : Prop := c.fi = ⟨.init, none⟩ ∧ c.conn = none

/-- The parent is told when `CONNECTED` is entered or left, and nothing else. -/
def Reports (c : SrvConn) (r : Reaction) : Prop :=
  r.2 = ParentEvent.change c.isConnected r.1.isConnected

theorem isConnected_iff : c.isConnected = true ↔ c.fi.state = .connected := decide_eq_true_iff

theorem Idle.isConnected (h : c.Idle) : c.isConnected = false := by
  unfold SrvConn.isConnected
  rw [h.1]
  rfl

theorem reports_of_state {c' : SrvConn} (h : c'.fi.state = c.fi.state) : c.Reports (c', []) := by
  unfold Reports isConnected
  rw [h]
  cases decide (c.fi.state = .connected) <;> rfl

theorem lost_eq (c : SrvConn) : c.lost = ParentEvent.change c.isConnected false := by
  unfold lost isConnected
  split_ifs with h
  · rw [decide_eq_true h]
    rfl
  · rw [decide_eq_false h]
    rfl

theorem Reports.congr {c' : SrvConn} {r : Reaction} (h : c'.Reports r)
    (hc : c'.fi.state = c.fi.state) : c.Reports r := by
  unfold Reports isConnected at h ⊢
  rwa [← hc]

theorem reports_retry (c : SrvConn) : c.Reports (c.retry now, c.lost) := c.lost_eq

theorem reports_reestablish (c : SrvConn) : c.Reports (c.reestablish now) := by
  unfold reestablish
  split_ifs
  · exact reports_of_state rfl
  · exact c.reports_retry

theorem reports_down (c : SrvConn) : c.Reports (c.down now) :=
  down_rule (fun _ => c.reports_retry) fun _ => reports_of_state rfl

theorem reports_notified (c : SrvConn) (st : Stream) : c.Reports (c.notified notifies now st) :=
  notified_rule (fun _ => c.reports_retry) (reports_of_state rfl) st

theorem reports_close (c : SrvConn) : c.Reports (c.close notifies now) :=
  close_rule (fun _ => c.reports_retry) fun _ => reports_of_state rfl

theorem notified_isConnected (st : Stream) (h : c.isConnected = false) :
    (c.notified notifies now st).1.isConnected = false :=
  notified_rule (P := fun r => r.1.isConnected = false) (fun _ => rfl) h st

theorem reports_toInit {r : Reaction} (h : c.Reports r)
    (hr : c.isConnected = false → r.1.isConnected = false) : c.Reports (toInit now r) := by
  show r.2 ++ r.1.lost = ParentEvent.change c.isConnected false
  rw [h, lost_eq]
  cases hc : c.isConnected with
  | true => cases r.1.isConnected <;> rfl
  | false =>
      rw [hr hc]
      rfl

theorem reports_react (c : SrvConn) (e : ServerConnEvent) :
    c.Reports (c.react notifies now e) := by
  cases e with
  | establish => exact (reports_reestablish _).congr rfl
  | disconnect =>
      unfold react
      cases c.conn with
      | none => exact reports_toInit (reports_of_state rfl) id
      | some st =>
          refine reports_toInit ((reports_notified _ st).congr rfl) fun h => ?_
          exact notified_isConnected st h
  | tcpUp =>
      simp only [react]
      split_ifs with hs
      · unfold Reports isConnected
        rw [hs]
        rfl
      · exact reports_of_state rfl
  | tcpDown => exact c.reports_down
  | kaTimeout => exact c.reports_down
  | clientConnRes res =>
      simp only [react]
      split_ifs with hs
      · exact c.reports_close
      · unfold Reports isConnected
        rw [hs]
        rfl
      · exact reports_of_state rfl
  | rsproTx pdu =>
      simp only [react]
      split_ifs
      · exact reports_of_state rfl
      · exact reports_of_state rfl

theorem reports_timeout (c : SrvConn) (T : ℕ) : c.Reports (c.timeout notifies now T) := by
  unfold timeout
  split
  · split_ifs with hs
    · unfold Reports isConnected
      rw [hs]
      rfl
    · exact reports_of_state rfl
  · exact c.reports_reestablish
  · exact c.reports_close
  · exact reports_of_state rfl

theorem reports_expired {r : Reaction} (h : c.expired notifies now = some r) : c.Reports r := by
  obtain ⟨t, _, _, rfl⟩ := expired_eq h
  exact (reports_timeout _ t.T).congr rfl

/-- A connection without a socket stays in `INIT` until it is to be established. -/
theorem Idle.react (h : c.Idle) {e : ServerConnEvent} (he : e ≠ .establish) :
    Idle (c.react notifies now e).1 := by
  have hs : c.fi.state = .init := by rw [h.1]
  cases e with
  | establish => exact absurd rfl he
  | disconnect =>
      unfold SrvConn.react
      rw [h.2]
      exact ⟨rfl, h.2⟩
  | tcpUp =>
      simp only [SrvConn.react]
      rw [hs, if_neg (by decide)]
      exact h
  | tcpDown =>
      simp only [SrvConn.react, down, hs]
      exact h
  | kaTimeout =>
      simp only [SrvConn.react, down, hs]
      exact h
  | clientConnRes res =>
      simp only [SrvConn.react]
      rw [hs, if_neg (by decide)]
      exact h
  | rsproTx pdu =>
      simp only [SrvConn.react]
      rw [hs, if_neg (by decide)]
      exact h

theorem Idle.expired (h : c.Idle) : c.expired notifies now = none := by
  unfold SrvConn.expired
  rw [h.1]

theorem idle_disconnect (c : SrvConn) : Idle (c.react notifies now .disconnect).1 := by
  unfold react
  cases hc : c.conn with
  | none => exact ⟨rfl, hc⟩
  | some st =>
      refine ⟨rfl, ?_⟩
      exact notified_rule (c := { c with conn := none }) (P := fun r => r.1.conn = none)
        (fun _ => rfl) rfl st

theorem establish_isConnected (c : SrvConn) :
    (c.react notifies now .establish).1.isConnected = false := by
  show isConnected (SrvConn.reestablish now _).1 = false
  unfold reestablish
  split_ifs with hs
  · unfold isConnected
    rw [decide_eq_false]
    show ¬ c.fi.state = .connected
    rw [hs]
    decide
  · rfl

end SrvConn

/-! ### The two machines without nesting -/

namespace Client

/-- What a report of the connection to the bankd does. -/
def report : ParentEvent → Client → Client
  | .conn, c =>
      if c.mainFi.state = .waitBankd then
        { c with mainFi := ⟨.operational, none⟩, frontend := c.frontend ++ c.enterCalls }
      else c
  | .disc, c =>
      if c.mainFi.state = .operational then
        { c with mainFi := ⟨.waitBankd, none⟩, frontend := c.frontend ++ leaveCalls }
      else c

/-- A state is left for another one. -/
def moveTo (st : MainState) (c : Client) : Client :=
  { c with
    mainFi := ⟨st, none⟩
    frontend := if c.mainFi.state = .operational then c.frontend ++ leaveCalls else c.frontend }

variable (notifies : Stream → Bool)

/-- The connection to the bankd with reports processed at once. -/
def linked : Host Client where
  get := bankdConn
  set b c := { c with bankdConn := b }
  now := now
  parent := report
  notifies := notifies

/-- `UNCONFIGURED` is entered, if the current state permits. -/
def unconfigure (c : Client) : Client :=
  if c.mainFi.state = .unconfigured then c
  else (linked notifies).dispatch .disconnect (c.moveTo .unconfigured)

/-- `WAIT_BANKD` is entered, if the current state permits. -/
def await (c : Client) : Client :=
  if c.mainFi.state = .unconfigured ∨ c.mainFi.state = .operational then c.moveTo .waitBankd else c

/-- What the traffic of an operational client does. -/
def serve : MainEvent → Client → Client
  | .bankdTpdu data, c => c.call [.handleCard2modem data]
  | .bankdAtr atr, c =>
      (linked notifies).dispatch (.rsproTx (.setAtrRes .ok))
        (if c.atrIgnoreRspro then c else c.call [.handleSetAtr atr])
  | .bankdSlotStatus st, c => c.call [.handleSlotStatus st]
  | .mdmStatusInd st, c =>
      (linked notifies).dispatch (.rsproTx (rsproGenClientSlotStatusInd st)) c
  | .mdmTpdu data, c =>
      (linked notifies).dispatch
        (.rsproTx (.tpduModemToCard c.clslot (bankSlot2rspro c.bankdSlot) data)) c
  | _, c => c

/-- What an event does. -/
def handle : MainEvent → Client → Client
  | .srvcConnected, c => if c.mainFi.state = .init then c.unconfigure notifies else c
  | .srvcLost, c => c
  | .srvcConfigBank slot ip port, c =>
      if c.mainFi.state = .init then c
      else
        let c := c.configure slot ip port
        toSrv (.configClientBankRes .ok)
          (if c.bankdConn.serverPort = 0 then c.unconfigure notifies
           else (linked notifies).dispatch .establish c.await)
  | .srvcResetReq, c => c.unconfigure notifies
  | .bankdConnected, c => report .conn c
  | .bankdLost, c => report .disc c
  | e, c => if c.mainFi.state = .operational then c.serve notifies e else c

variable {notifies}

theorem stateChg_main (n : ℕ) (st : MainState) (c : Client) :
    (mainMachine notifies (n + 1)).stateChg st 0 0 c =
      if MainState.outStateMask c.mainFi.state st then
        onenter notifies (mainMachine notifies n) st (c.moveTo st)
      else c := by
  show (if MainState.outStateMask c.mainFi.state st = true then _ else _) = _
  congr 1
  unfold moveTo
  cases hs : c.mainFi.state with
  | operational => simp only [mainMachine, onleave, call, hs, if_true]
  | _ => simp only [mainMachine, onleave, id, hs, if_true, reduceCtorEq, if_false]

theorem dispatch_main (n : ℕ) {e : MainEvent} (c : Client) (he : e.allstate = false) :
    (mainMachine notifies (n + 1)).dispatch e c =
      if MainState.inEventMask c.mainFi.state e then
        action notifies (mainMachine notifies n) c.mainFi.state e c
      else c := by
  show (if e.allstate = true then _ else _) = _
  rw [he, if_neg (by decide)]
  rfl

theorem dispatch_report (n : ℕ) (e : ParentEvent) (c : Client) :
    (mainMachine notifies (n + 2)).dispatch e.toMain c = report e c := by
  cases e with
  | conn =>
      rw [dispatch_main _ _ rfl]
      simp only [report]
      cases hs : c.mainFi.state with
      | waitBankd =>
          show (mainMachine notifies (n + 1)).stateChg .operational 0 0 c = _
          rw [stateChg_main, hs, if_pos (by rfl), if_pos rfl]
          simp only [onenter, moveTo, call, enterCalls, hs, reduceCtorEq, if_false]
      | _ => rfl
  | disc =>
      rw [dispatch_main _ _ rfl]
      simp only [report]
      cases hs : c.mainFi.state with
      | operational =>
          show (mainMachine notifies (n + 1)).stateChg .waitBankd 0 0 c = _
          rw [stateChg_main, hs, if_pos (by rfl), if_pos rfl]
          simp only [onenter, moveTo, id, hs, if_true]
      | _ => rfl

/-- A report of the connection needs two levels of nesting. -/
theorem bankdHost_eq (n : ℕ) :
    bankdHost notifies (mainMachine notifies (n + 2)) = linked notifies := by
  unfold bankdHost linked
  congr 1
  funext e c
  exact dispatch_report n e c

theorem stateChg_unconfigured (n : ℕ) (c : Client) :
    (mainMachine notifies (n + 3)).stateChg .unconfigured 0 0 c = c.unconfigure notifies := by
  rw [stateChg_main]
  unfold unconfigure onenter toBankd
  rw [bankdHost_eq]
  cases hs : c.mainFi.state with
  | _ => rfl

theorem stateChg_waitBankd (n : ℕ) (c : Client) :
    (mainMachine notifies (n + 1)).stateChg .waitBankd 0 0 c = c.await := by
  rw [stateChg_main]
  unfold await
  cases hs : c.mainFi.state with
  | unconfigured =>
      rw [if_pos (by rfl), if_pos (.inl rfl)]
      rfl
  | operational =>
      rw [if_pos (by rfl), if_pos (.inr rfl)]
      rfl
  | _ => rfl

/-- **The nested machines do what `handle` says**, at any depth from four on. -/
theorem dispatch_handle (n : ℕ) (e : MainEvent) (c : Client) :
    (mainMachine notifies (n + 4)).dispatch e c = c.handle notifies e := by
  have hconfig : ∀ slot ip port, srvcConfigBank notifies (mainMachine notifies (n + 3))
      slot ip port c = toSrv (.configClientBankRes .ok)
        (if (c.configure slot ip port).bankdConn.serverPort = 0 then
          (c.configure slot ip port).unconfigure notifies
         else (linked notifies).dispatch .establish (c.configure slot ip port).await) := by
    intro slot ip port
    unfold srvcConfigBank toBankd
    simp only [stateChg_unconfigured, stateChg_waitBankd, bankdHost_eq]
  cases e with
  | srvcLost => rfl
  | srvcResetReq => exact stateChg_unconfigured n c
  | srvcConnected =>
      rw [dispatch_main _ _ rfl]
      simp only [handle]
      cases hs : c.mainFi.state with
      | init => exact stateChg_unconfigured n c
      | _ => rfl
  | srvcConfigBank slot ip port =>
      rw [dispatch_main _ _ rfl]
      simp only [handle]
      cases hs : c.mainFi.state with
      | init => rfl
      | _ => exact hconfig slot ip port
  | bankdConnected => exact dispatch_report (n + 2) .conn c
  | bankdLost => exact dispatch_report (n + 2) .disc c
  | _ =>
      rw [dispatch_main _ _ rfl]
      simp only [handle]
      cases hs : c.mainFi.state with
      | operational =>
          simp only [action, mainStOperational, serve, toBankd, bankdHost_eq, if_true]
          rfl
      | _ => rfl

end Client

/-! ### The two machines stay in step -/

namespace FrontendCall

/-- A request that switches between the two SIMs. -/
def isSim : FrontendCall → Bool
  | .requestSimRemote | .requestSimLocal => true
  | _ => false

/-- A request that inserts or removes the card. -/
def isCard : FrontendCall → Bool
  | .requestCardInsert | .requestCardRemove => true
  | _ => false

/-- A request to the modem, other than data passed on. -/
def isRequest : FrontendCall → Bool
  | .requestModemReset => true
  | f => f.isSim || f.isCard

end FrontendCall

/-- The calls of a frontend up to now, when the calls made on entering and on leaving `OPERATIONAL`
alternate, and other calls, which request nothing, come only in between; with the Boolean that says
which of the two was last. -/
inductive Switched (enter leave : List FrontendCall) : Bool → List FrontendCall → Prop
  | start : Switched enter leave false []
  | entered {l : List FrontendCall} :
      Switched enter leave false l → Switched enter leave true (l ++ enter)
  | passed {l : List FrontendCall} {f : FrontendCall} :
      Switched enter leave true l → f.isRequest = false → Switched enter leave true (l ++ [f])
  | left {l : List FrontendCall} :
      Switched enter leave true l → Switched enter leave false (l ++ leave)

namespace Client

/-- The modem was last switched to the remote SIM, and the card was last inserted. -/
def Remote (c : Client) : Prop :=
  (c.frontend.filter FrontendCall.isSim).getLast? = some .requestSimRemote ∧
    (c.frontend.filter FrontendCall.isCard).getLast? = some .requestCardInsert

/-- **The two machines are in step.** -/
structure InStep (c : Client) : Prop where
  operational : c.mainFi.state = .operational ↔ c.bankdConn.fi.state = .connected
  idle : c.mainFi.state = .unconfigured ∨ c.mainFi.state = .init →
    c.bankdConn.fi.state = .init ∧ c.bankdConn.conn = none
  remote : c.Remote ↔ c.mainFi.state = .operational
  switched : Switched c.enterCalls leaveCalls (c.mainFi.state = .operational) c.frontend

/-- The invariant. -/
structure Locked (c : Client) : Prop where
  operational : c.mainFi.state = .operational ↔ c.bankdConn.isConnected = true
  idle : c.mainFi.state = .unconfigured ∨ c.mainFi.state = .init → c.bankdConn.Idle
  switched : Switched c.enterCalls leaveCalls (c.mainFi.state = .operational) c.frontend

variable {notifies : Stream → Bool} {c : Client}

theorem remote_iff {b : Bool} (h : Switched c.enterCalls leaveCalls b c.frontend) :
    c.Remote ↔ b = true := by
  unfold Remote
  generalize c.frontend = l at h ⊢
  induction h with
  | start => decide
  | entered => simp [enterCalls, FrontendCall.isSim, FrontendCall.isCard]
  | left => simp [leaveCalls, FrontendCall.isSim, FrontendCall.isCard]
  | passed _ hf ih =>
      rename_i l f _
      have hs : f.isSim = false ∧ f.isCard = false := by
        cases f <;> first | exact ⟨rfl, rfl⟩ | cases hf
      simpa [List.filter_append, hs.1, hs.2] using ih

theorem Locked.inStep (h : c.Locked) : c.InStep where
  operational := h.operational.trans SrvConn.isConnected_iff
  idle hm := ⟨by rw [(h.idle hm).1], (h.idle hm).2⟩
  remote := (remote_iff h.switched).trans decide_eq_true_iff
  switched := h.switched

theorem linked_lawful : (linked notifies).Lawful where
  get_set _ _ := rfl
  set_set _ _ _ := rfl
  set_get _ := rfl
  now_set _ _ := rfl
  get_parent e c := by
    cases e <;> (simp only [linked, report]; split_ifs <;> rfl)
  now_parent e c := by
    cases e <;> (simp only [linked, report]; split_ifs <;> rfl)
  parent_set e b c := by
    cases e <;> (simp only [linked, report]; split_ifs <;> rfl)

theorem Locked.put (h : c.Locked) {r : Reaction} (hr : c.bankdConn.Reports r)
    (hi : c.bankdConn.Idle → r.1.Idle) : ((linked notifies).put r c).Locked := by
  obtain ⟨b, es⟩ := r
  change es = ParentEvent.change _ b.isConnected at hr
  have hidle : c.mainFi.state = .unconfigured ∨ c.mainFi.state = .init → b.isConnected = false :=
    fun hm => (hi (h.idle hm)).isConnected
  cases hc : c.bankdConn.isConnected with
  | true =>
      have hm := h.operational.mpr hc
      have hsw := h.switched
      rw [decide_eq_true hm] at hsw
      cases hb : b.isConnected with
      | true =>
          rw [hc, hb] at hr
          subst hr
          refine ⟨⟨fun _ => hb, fun _ => hm⟩, fun hm' => ?_, h.switched⟩
          exact hi (h.idle hm')
      | false =>
          rw [hc, hb] at hr
          subst hr
          have hp : (linked notifies).put (b, [.disc]) c =
              { c with
                bankdConn := b
                mainFi := ⟨.waitBankd, none⟩
                frontend := c.frontend ++ leaveCalls } := by
            show (linked notifies).set b (report .disc c) = _
            simp only [report, hm, if_true]
            rfl
          rw [show ParentEvent.change true false = [.disc] from rfl, hp]
          refine ⟨⟨nofun, fun h' => ?_⟩, fun hm' => ?_, hsw.left⟩
          · rw [hb] at h'
            cases h'
          · rcases hm' with hm' | hm' <;> cases hm'
  | false =>
      have hm : c.mainFi.state ≠ .operational := by
        intro hm
        rw [h.operational.mp hm] at hc
        cases hc
      have hsw := h.switched
      rw [decide_eq_false hm] at hsw
      cases hb : b.isConnected with
      | false =>
          rw [hc, hb] at hr
          subst hr
          refine ⟨⟨fun hm' => absurd hm' hm, fun h' => ?_⟩, fun hm' => ?_, h.switched⟩
          · change b.isConnected = true at h'
            rw [hb] at h'
            cases h'
          · exact hi (h.idle hm')
      | true =>
          rw [hc, hb] at hr
          subst hr
          have hw : c.mainFi.state = .waitBankd := by
            cases hs : c.mainFi.state with
            | waitBankd => rfl
            | operational => exact absurd hs hm
            | unconfigured =>
                rw [hidle (.inl hs)] at hb
                cases hb
            | init =>
                rw [hidle (.inr hs)] at hb
                cases hb
          have hp : (linked notifies).put (b, [.conn]) c =
              { c with
                bankdConn := b
                mainFi := ⟨.operational, none⟩
                frontend := c.frontend ++ c.enterCalls } := by
            show (linked notifies).set b (report .conn c) = _
            simp only [report, hw, if_true]
            rfl
          rw [show ParentEvent.change false true = [.conn] from rfl, hp]
          refine ⟨⟨fun _ => hb, fun _ => rfl⟩, fun hm' => ?_, hsw.entered⟩
          rcases hm' with hm' | hm' <;> cases hm'

theorem Locked.congr {c' : Client} (h : c.Locked) (hm : c'.mainFi = c.mainFi)
    (hfi : c'.bankdConn.fi = c.bankdConn.fi)
    (hconn : c.bankdConn.conn = none → c'.bankdConn.conn = none) (ha : c'.cfgAtr = c.cfgAtr)
    (hf : c'.frontend = c.frontend) : c'.Locked := by
  refine ⟨?_, fun hi => ?_, ?_⟩
  · unfold SrvConn.isConnected
    rw [hm, hfi]
    exact h.operational
  · rw [hm] at hi
    exact ⟨hfi.trans (h.idle hi).1, hconn (h.idle hi).2⟩
  · unfold enterCalls
    rw [hm, ha, hf]
    exact h.switched

theorem Locked.dispatch (h : c.Locked) {e : ServerConnEvent} (he : e ≠ .establish) :
    ((linked notifies).dispatch e c).Locked := by
  rw [linked_lawful.dispatch_eq]
  exact h.put (SrvConn.reports_react _ e) fun hi => hi.react he

/-- A call that requests nothing from the modem, of an operational client. -/
theorem Locked.call (h : c.Locked) (hm : c.mainFi.state = .operational) {f : FrontendCall}
    (hf : f.isRequest = false) : (c.call [f]).Locked := by
  refine ⟨h.operational, h.idle, ?_⟩
  have hsw := h.switched
  rw [decide_eq_true hm] at hsw
  show Switched c.enterCalls leaveCalls (decide (c.mainFi.state = .operational)) _
  rw [decide_eq_true hm]
  exact hsw.passed hf

theorem Locked.moved (h : c.Locked) (st : MainState) :
    Switched c.enterCalls leaveCalls false (c.moveTo st).frontend := by
  have hsw := h.switched
  unfold moveTo
  simp only
  split_ifs with hm
  · rw [decide_eq_true hm] at hsw
    exact hsw.left
  · rwa [decide_eq_false hm] at hsw

/-- Reports that `CLIENT_MAIN` does not permit change the connection only. -/
theorem put_ignored {r : Reaction} (h : ∀ e ∈ r.2, report e c = c) :
    (linked notifies).put r c = { c with bankdConn := r.1 } := by
  obtain ⟨b, es⟩ := r
  have hp : (linked notifies).parents es c = c := by
    induction es with
    | nil => rfl
    | cons e es ih =>
        show (linked notifies).parents es (report e c) = c
        rw [h e List.mem_cons_self]
        exact ih fun e' he' => h e' (List.mem_cons_of_mem _ he')
  show (linked notifies).set b ((linked notifies).parents es c) = _
  rw [hp]
  rfl

/-- `main_st_unconfigured_onenter()`: the connection is closed after the state has changed. -/
theorem Locked.unconfigure (h : c.Locked) : (c.unconfigure notifies).Locked := by
  unfold Client.unconfigure
  split_ifs with hm
  · exact h
  · have hrep : ∀ e, report e (c.moveTo .unconfigured) = c.moveTo .unconfigured := by
      intro e
      cases e <;> rfl
    rw [linked_lawful.dispatch_eq, put_ignored fun e _ => hrep e]
    have hidle : (c.bankdConn.react notifies c.now .disconnect).1.Idle := SrvConn.idle_disconnect _
    refine ⟨⟨nofun, fun h' => ?_⟩, fun _ => hidle, h.moved .unconfigured⟩
    exact absurd (hidle.isConnected.symm.trans h') (by decide)

theorem Locked.establish (h : c.Locked) (hm : c.mainFi.state ≠ .init) :
    ((linked notifies).dispatch .establish c.await).Locked := by
  have hw : c.await.mainFi.state = .waitBankd ∧ c.await.bankdConn = c.bankdConn ∧
      c.await.enterCalls = c.enterCalls ∧
      Switched c.enterCalls leaveCalls false c.await.frontend := by
    unfold await
    split_ifs with hs
    · exact ⟨rfl, rfl, rfl, h.moved _⟩
    · push Not at hs
      refine ⟨?_, rfl, rfl, ?_⟩
      · cases hs' : c.mainFi.state with
        | waitBankd => rfl
        | init => exact absurd hs' hm
        | unconfigured => exact absurd hs' hs.1
        | operational => exact absurd hs' hs.2
      · have hsw := h.switched
        rwa [decide_eq_false hs.2] at hsw
  generalize c.await = c' at hw ⊢
  obtain ⟨hst, hb, he, hsw⟩ := hw
  have hcon : (c'.bankdConn.react notifies c'.now .establish).1.isConnected = false :=
    SrvConn.establish_isConnected _
  have hrep : c'.bankdConn.Reports (c'.bankdConn.react notifies c'.now .establish) :=
    SrvConn.reports_react _ _
  rw [linked_lawful.dispatch_eq, put_ignored fun e hmem => ?_]
  · refine ⟨⟨fun h' => ?_, fun h' => absurd (hcon.symm.trans h') (by decide)⟩, fun h' => ?_, ?_⟩
    · exact absurd (hst.symm.trans h') (by decide)
    · rcases h' with h' | h' <;> exact absurd (hst.symm.trans h') (by decide)
    · show Switched c'.enterCalls leaveCalls (decide (c'.mainFi.state = .operational)) c'.frontend
      rw [he, hst]
      exact hsw
  · -- the only report there may be is that `CONNECTED` was left
    unfold SrvConn.Reports at hrep
    rw [hcon] at hrep
    change e ∈ (c'.bankdConn.react notifies c'.now .establish).2 at hmem
    rw [hrep] at hmem
    cases hc : c'.bankdConn.isConnected with
    | true =>
        rw [hc] at hmem
        obtain rfl := List.mem_singleton.mp hmem
        simp only [report, hst, reduceCtorEq, if_false]
    | false =>
        rw [hc] at hmem
        cases hmem

theorem Locked.serve (h : c.Locked) (hm : c.mainFi.state = .operational) (e : MainEvent) :
    (c.serve notifies e).Locked := by
  cases e with
  | bankdTpdu data => exact h.call hm rfl
  | bankdAtr atr =>
      refine Locked.dispatch ?_ (by decide)
      split_ifs
      · exact h
      · exact h.call hm rfl
  | bankdSlotStatus st => exact h.call hm rfl
  | mdmStatusInd st => exact h.dispatch nofun
  | mdmTpdu data => exact h.dispatch nofun
  | _ => exact h

theorem Locked.handle (h : c.Locked) {e : MainEvent} (he : e ≠ .bankdConnected)
    (he' : e ≠ .bankdLost) : (c.handle notifies e).Locked := by
  cases e with
  | srvcConnected =>
      simp only [Client.handle]
      split_ifs
      · exact h.unconfigure
      · exact h
  | srvcLost => exact h
  | srvcConfigBank slot ip port =>
      have hc : (c.configure slot ip port).Locked := h.congr rfl rfl id rfl rfl
      simp only [Client.handle]
      split_ifs with hm
      · exact h
      · exact hc.unconfigure.congr rfl rfl id rfl rfl
      · exact (hc.establish hm).congr rfl rfl id rfl rfl
  | srvcResetReq => exact h.unconfigure
  | bankdConnected => exact absurd rfl he
  | bankdLost => exact absurd rfl he'
  | _ =>
      simp only [Client.handle]
      split_ifs with hm
      · exact h.serve hm _
      · exact h

theorem dispatch_eq (e : MainEvent) (c : Client) : c.dispatch notifies e = c.handle notifies e :=
  dispatch_handle 0 e c

theorem bankd_eq : bankd notifies = linked notifies := bankdHost_eq 2

theorem Locked.stream (h : c.Locked) (st : Stream) :
    Locked { c with bankdConn := { c.bankdConn with conn := c.bankdConn.conn.map fun _ => st } } :=
  h.congr rfl rfl (fun hn => by simp only [hn, Option.map_none]) rfl rfl

theorem Locked.bankdHandleRx (h : c.Locked) (pdu : RsproPDU) :
    (c.bankdHandleRx notifies pdu).Locked := by
  unfold Client.bankdHandleRx
  split
  · rw [bankd_eq]
    split_ifs
    · exact h.dispatch (by decide)
    · exact h.dispatch nofun
  · rw [dispatch_eq]
    exact h.handle nofun nofun
  · rw [dispatch_eq]
    exact h.handle nofun nofun
  · rw [dispatch_eq]
    exact h.handle nofun nofun
  · exact h

/-- The step lemma. -/
theorem Locked.input (h : c.Locked) {i : Input} {c' : Client} (hi : c.input notifies i = some c') :
    c'.Locked := by
  cases i with
  | bankdUp =>
      obtain rfl := Option.some.inj hi
      rw [bankd_eq]
      exact (h.stream .connected).dispatch (by decide)
  | bankdDown =>
      obtain rfl := Option.some.inj hi
      rw [bankd_eq]
      exact (h.stream .closed).dispatch (by decide)
  | bankdKaTimeout =>
      obtain rfl := Option.some.inj hi
      rw [bankd_eq]
      exact h.dispatch (by decide)
  | srvcConfigId slot => exact Option.some.inj hi ▸ h.congr rfl rfl id rfl rfl
  | bankdRx pdu => exact Option.some.inj hi ▸ h.bankdHandleRx pdu
  | bankdExpiry =>
      change (bankd notifies).expire c = some c' at hi
      rw [bankd_eq, linked_lawful.expire_eq, Option.map_eq_some_iff] at hi
      obtain ⟨r, hr, rfl⟩ := hi
      refine h.put (SrvConn.reports_expired hr) fun hidle => ?_
      exact absurd (hr.symm.trans hidle.expired) nofun
  | _ =>
      obtain rfl := Option.some.inj hi
      rw [dispatch_eq]
      exact h.handle nofun nofun

theorem reach_locked {C : Client → Label → Prop} (h : (lts notifies).Reach C c) : c.Locked := by
  refine h.invariant (I := Locked) ?_ fun c l c' hi _ hst => ?_
  · rintro c ⟨hm, hfi, hconn, hf⟩
    refine ⟨?_, fun _ => ⟨hfi, hconn⟩, ?_⟩
    · rw [hm, SrvConn.isConnected_iff, hfi]
      decide
    · rw [hm, hf]
      exact .start
  · change (if c.now ≤ l.time then _ else none) = some c' at hst
    split_ifs at hst
    have hnow : Locked { c with now := l.time } := hi.congr rfl rfl id rfl rfl
    exact hnow.input hst

/-- **The two machines are in step whenever an event has been processed.** -/
theorem reach_inStep (notifies : Stream → Bool) (c : Client)
    (h : (lts notifies).Reach Transition.Lts.Any c) : c.InStep := (reach_locked h).inStep

/-- A client after start-up. -/
def started : Client where
  bankdConn :=
    { fi := ⟨.init, none⟩
      conn := none
      reestablishDelayIdx := 0
      reestablishLastMs := 0
      ownCompId := .remsimClient
      clslot := some ⟨3, 0⟩
      serverHost := 0
      serverPort := 0
      bankId := 0
      numSlots := 0
      sent := []
      hist := [] }
  mainFi := ⟨.init, none⟩
  clslot := ⟨3, 0⟩
  bankdSlot := ⟨0, 0⟩
  cfgAtr := [0x3b, 0x00]
  atrIgnoreRspro := false
  toServer := []
  frontend := []
  now := 0

/-- The server assigns a bankd, and the connection to it succeeds. -/
def assignedRun : List Label :=
  [⟨10, .srvcConnected⟩, ⟨11, .srvcConfigId ⟨3, 0⟩⟩,
    ⟨20, .srvcConfigBank ⟨1, 2⟩ 0x0a000001 9999⟩, ⟨21, .bankdExpiry⟩, ⟨30, .bankdUp⟩,
    ⟨40, .bankdRx (.connectClientRes .remsimBankd .ok)⟩]

theorem assignedRun_inStep :
    (Transition.after (next fun _ => true) started assignedRun).mainFi.state = .operational ∧
      (Transition.after (next fun _ => true) started assignedRun).bankdConn.fi.state = .connected ∧
      (Transition.after (next fun _ => true) started assignedRun).InStep := by
  have hrun : (Transition.exec (next fun _ => true) started assignedRun).isSome = true := by
    decide +kernel
  refine ⟨by decide +kernel, by decide +kernel, reach_inStep (fun _ => true) _ ?_⟩
  exact Transition.reach_after ⟨rfl, rfl, rfl, rfl⟩ hrun (by decide +kernel)

end Client
end Remsim
