import Remsim.Fsm
import Remsim.Rspro

/-! # The client side of an RSPRO connection (`rspro_client_fsm.c`)

The FSM `RSPRO_CLIENT` with everything it dispatches to itself and to its parent while an event is
being processed: closing a stream calls `srvc_disconnect_cb()`, which dispatches `SRVC_E_TCP_DOWN`,
and entering or leaving `CONNECTED` notifies the parent.  `Host` is the program around the
connection.  Handlers take the machine that nested calls go to as an argument; `machine n` allows
`n` levels of nesting, and three are all that is ever needed (`dispatch_react`).

Whether closing a stream in a given state calls the callback is left open (`Host.notifies`), and
so is the time at which the keep-alive FSM reports a timeout.  `srvc_st_reestablish_onenter()` ends
the process when it gets no socket; such runs end there.  `SrvConn.hist` is not a field of
`struct rspro_server_conn`: it records when what was done.
-/

namespace Remsim

/-- `T1_WAIT_CLIENT_CONN_RES` in milliseconds. -/
def t1WaitClientConnRes : ℕ := 10000

/-- `T2_RECONNECT` in milliseconds. -/
def t2Reconnect : ℕ := 10000

/-- `k_reestablish_delay_s`. -/
def kReestablishDelayS : List ℕ :=
  List.replicate 3 0 ++ List.replicate 30 1 ++ List.replicate 30 2 ++ List.replicate 30 4 ++
    List.replicate 30 8 ++ [16]

/-- `REESTABLISH_DELAY_COUNT`. -/
def reestablishDelayCount : ℕ := kReestablishDelayS.length

/-- An entry of the table. -/
def delayS (i : ℕ) : ℕ := kReestablishDelayS.getD i 0

/-- `enum server_conn_fsm_state`. -/
inductive ServerConnState where
  | init
  | established
  | connected
  | reestablishDelay
  | reestablish
deriving DecidableEq, Repr

/-- `enum server_conn_fsm_event`, with the data passed along. -/
inductive ServerConnEvent where
  | establish
  | disconnect
  | tcpUp
  | tcpDown
  | kaTimeout
  | clientConnRes (result : ResultCode)
  | rsproTx (pdu : RsproPDU)
deriving DecidableEq, Repr

/-- The state of an `osmo_stream_cli`. -/
inductive Stream where
  | connecting
  | connected
  | closed
deriving DecidableEq, Repr

/-- What is recorded of a connection, each with its time. -/
inductive Mark where
  /-- `SRVC_E_ESTABLISH`. -/
  | establish (t : ℕ)
  /-- `SRVC_E_DISCONNECT`, when the stream has been closed. -/
  | disconnect (t : ℕ)
  /-- `REESTABLISH_DELAY` was entered, with the index in use and the timeout armed. -/
  | delay (t i d : ℕ)
  /-- `REESTABLISH` was entered, with the index for the attempt after this one. -/
  | attempt (t j : ℕ)
deriving DecidableEq, Repr

/-- `struct rspro_server_conn`. -/
structure SrvConn where
  fi : Fsm.Inst ServerConnState
  conn : Option Stream
  reestablishDelayIdx : ℕ
  reestablishLastMs : ℕ
  ownCompId : ComponentType
  clslot : Option ClientSlotT
  serverHost : UInt32
  serverPort : UInt16
  bankId : UInt16
  numSlots : UInt16
  sent : List RsproPDU
  hist : List Mark
deriving DecidableEq, Repr

/-- The event the parent is sent: `parent_conn_evt` or `parent_disc_evt`. -/
inductive ParentEvent where
  | conn
  | disc
deriving DecidableEq, Repr

/-- The program around a connection. -/
structure Host (σ : Type) where
  get : σ → SrvConn
  set : SrvConn → σ → σ
  now : σ → ℕ
  parent : ParentEvent → σ → σ
  /-- Closing a stream in this state calls the disconnect callback. -/
  notifies : Stream → Bool

namespace ServerConnState

/-- The events a state permits. -/
def inEventMask : ServerConnState → ServerConnEvent → Bool
  | .established, .tcpDown | .established, .kaTimeout | .established, .clientConnRes _ => true
  | .connected, .tcpDown | .connected, .kaTimeout | .connected, .rsproTx _ => true
  | .reestablish, .tcpUp | .reestablish, .tcpDown => true
  | _, _ => false

/-- The states that may follow a state. -/
def outStateMask : ServerConnState → ServerConnState → Bool
  | .init, .init | .init, .reestablishDelay => true
  | .established, .connected | .established, .reestablishDelay | .established, .init => true
  | .connected, .reestablishDelay | .connected, .init => true
  | .reestablishDelay, .reestablish | .reestablishDelay, .init => true
  | .reestablish, .established | .reestablish, .reestablishDelay | .reestablish, .init => true
  | _, _ => false

end ServerConnState

/-- `.allstate_event_mask`. -/
def ServerConnEvent.allstate : ServerConnEvent → Bool
  | .establish | .disconnect => true
  | _ => false

namespace Host

variable {σ : Type} (H : Host σ)

/-- The machine that nested calls go to. -/
abbrev Nested (σ : Type) := Fsm.Machine σ ServerConnState ServerConnEvent

/-- Assignment to fields of the connection. -/
def mod (f : SrvConn → SrvConn) (s : σ) : σ := H.set (f (H.get s)) s

/-- An entry of the record. -/
def record (k : Mark) : σ → σ := H.mod fun c => { c with hist := c.hist ++ [k] }

variable (M : Nested σ)

/-- `_server_conn_send_rspro()`. -/
def serverConnSendRspro (pdu : RsproPDU) : σ → σ :=
  H.mod fun c => { c with sent := c.sent ++ [pdu] }

/-- `srvc_disconnect_cb()`. -/
def srvcDisconnectCb (s : σ) : σ := M.dispatch .tcpDown s

/-- `osmo_stream_cli_close()` of a stream in the given state, after its end has been recorded. -/
def notify (st : Stream) (s : σ) : σ :=
  if st ≠ .closed ∧ H.notifies st then srvcDisconnectCb M s else s

/-- `osmo_stream_cli_close(srvc->conn)`. -/
def osmoStreamCliClose (s : σ) : σ :=
  match (H.get s).conn with
  | none => s
  | some st => H.notify M st (H.mod (fun c => { c with conn := some .closed }) s)

/-- The index and the delay that `srvc_do_reestablish()` determines: index reset when the last
attempt was too long ago; at least one millisecond. -/
def usedIdx (now : ℕ) (c : SrvConn) : ℕ :=
  let resetMs : ℤ := 2 * max (max t1WaitClientConnRes t2Reconnect)
    (1000 * delayS (reestablishDelayCount - 1))
  if (now : ℤ) - c.reestablishLastMs > resetMs then 0 else c.reestablishDelayIdx

/-- The delay for an index, in milliseconds. -/
def delayMs (now : ℕ) (c : SrvConn) (i : ℕ) : ℕ :=
  let delay : ℤ := (delayS i : ℤ) * 1000 - ((now : ℤ) - c.reestablishLastMs)
  if delay > 0 then delay.toNat else 1

/-- `srvc_do_reestablish()`. -/
def srvcDoReestablish (s : σ) : σ :=
  let c := H.get s
  let i := usedIdx (H.now s) c
  let s := H.mod (fun c => { c with reestablishDelayIdx := i }) s
  M.stateChg .reestablishDelay (delayMs (H.now s) c i) 3 s

/-- `srvc_st_established()`. -/
def srvcStEstablished : ServerConnEvent → σ → σ
  | .tcpDown | .kaTimeout => H.srvcDoReestablish M
  | .clientConnRes res =>
      if res ≠ .ok then H.osmoStreamCliClose M else M.stateChg .connected 0 0
  | _ => id

/-- `srvc_st_connected()`. -/
def srvcStConnected : ServerConnEvent → σ → σ
  | .tcpDown | .kaTimeout => H.srvcDoReestablish M
  | .rsproTx pdu => H.serverConnSendRspro pdu
  | _ => id

/-- `srvc_st_reestablish()`; a `SRVC_E_TCP_DOWN` waits for the normal T2 callback. -/
def srvcStReestablish : ServerConnEvent → σ → σ
  | .tcpUp => M.stateChg .established t1WaitClientConnRes 1
  | _ => id

/-- The actions of the states; the others permit no event. -/
def action : ServerConnState → ServerConnEvent → σ → σ
  | .established => H.srvcStEstablished M
  | .connected => H.srvcStConnected M
  | .reestablish => srvcStReestablish M
  | _ => fun _ => id

/-- `srvc_st_established_onenter()`. -/
def srvcStEstablishedOnenter (s : σ) : σ :=
  let c := H.get s
  let pdu :=
    if c.ownCompId = .remsimClient then RsproPDU.connectClientReq c.ownCompId c.clslot
    else .connectBankReq c.ownCompId c.bankId.toNat c.numSlots.toNat
  H.serverConnSendRspro pdu s

/-- `srvc_st_connected_onenter()`. -/
def srvcStConnectedOnenter (s : σ) : σ := H.parent .conn s

/-- `srvc_st_reestablish_delay_onenter()`. -/
def srvcStReestablishDelayOnenter (s : σ) : σ :=
  let c := H.get s
  let armed := (c.fi.timer.map Fsm.Timer.due).getD 0 - H.now s
  let s := H.record (.delay (H.now s) c.reestablishDelayIdx armed) s
  -- `osmo_stream_cli_destroy()` closes the stream; `srvc->conn` is cleared after it
  let s :=
    match (H.get s).conn with
    | none => s
    | some _ => H.mod (fun c => { c with conn := none }) (H.osmoStreamCliClose M s)
  H.mod (fun c =>
    if c.reestablishDelayIdx < reestablishDelayCount - 1 then
      { c with reestablishDelayIdx := c.reestablishDelayIdx + 1 }
    else c) s

/-- `srvc_st_reestablish_onenter()`. -/
def srvcStReestablishOnenter (s : σ) : σ :=
  H.mod (fun c => { c with reestablishLastMs := H.now s, conn := some .connecting })
    (H.record (.attempt (H.now s) (H.get s).reestablishDelayIdx) s)

/-- The functions called on entering a state. -/
def onenter : ServerConnState → σ → σ
  | .init => id
  | .established => H.srvcStEstablishedOnenter
  | .connected => H.srvcStConnectedOnenter
  | .reestablishDelay => H.srvcStReestablishDelayOnenter M
  | .reestablish => H.srvcStReestablishOnenter

/-- The functions called on leaving a state; `srvc_st_connected_onleave()` is the only one. -/
def onleave : ServerConnState → σ → σ
  | .connected => H.parent .disc
  | _ => id

/-- `srvc_allstate_action()`. -/
def srvcAllstateAction : ServerConnEvent → σ → σ
  | .establish => fun s =>
      H.srvcDoReestablish M (H.mod (fun c =>
        { c with reestablishDelayIdx := 0, reestablishLastMs := 0 })
        (H.record (.establish (H.now s)) s))
  | .disconnect => fun s =>
      -- `srvc->conn` is cleared before `osmo_stream_cli_destroy()` closes the stream
      let s :=
        match (H.get s).conn with
        | none => s
        | some st => H.notify M st (H.mod (fun c => { c with conn := none }) s)
      M.stateChg .init 0 0 (H.record (.disconnect (H.now s)) s)
  | _ => id

/-- `server_conn_fsm_timer_cb()`. -/
def serverConnFsmTimerCb : ℕ → σ → σ
  | 3 => M.stateChg .reestablish t2Reconnect 2
  | 2 => H.srvcDoReestablish M
  | 1 => H.osmoStreamCliClose M
  | _ => id

/-- The FSM with a bound on the depth of nested calls. -/
def machine : ℕ → Nested σ
  | 0 => Fsm.Machine.inert fun s => (H.get s).fi
  | n + 1 =>
      { inst := fun s => (H.get s).fi
        setInst := fun fi => H.mod fun c => { c with fi := fi }
        now := H.now
        inEventMask := ServerConnState.inEventMask
        outStateMask := ServerConnState.outStateMask
        allstateEventMask := ServerConnEvent.allstate
        action := H.action (machine n)
        allstateAction := H.srvcAllstateAction (machine n)
        onenter := H.onenter (machine n)
        onleave := H.onleave
        timerCb := H.serverConnFsmTimerCb (machine n) }

/-- The depth that nested calls reach. -/
def depth : ℕ := 3

/-- `osmo_fsm_inst_dispatch(srvc->fi, ..)`. -/
def dispatch (e : ServerConnEvent) (s : σ) : σ := (H.machine depth).dispatch e s

/-- The timer of `srvc->fi` expires. -/
def expire (s : σ) : Option σ := (H.machine depth).expire s

/-- The stream is connected: `srvc_connect_cb()`. -/
def srvcConnectCb (s : σ) : σ :=
  H.dispatch .tcpUp (H.mod (fun c => { c with conn := c.conn.map fun _ => .connected }) s)

/-- The stream was closed by the peer, or could not be connected: `srvc_disconnect_cb()`. -/
def streamDown (s : σ) : σ :=
  H.dispatch .tcpDown (H.mod (fun c => { c with conn := c.conn.map fun _ => .closed }) s)

end Host

/-! ### The machine without nesting -/

/-- The connection after an event, and what the parent was sent. -/
abbrev Reaction := SrvConn × List ParentEvent

namespace SrvConn

open Host (usedIdx delayMs)

variable (notifies : Stream → Bool) (now : ℕ) (c : SrvConn)

/-- What the parent is sent when the current state is left. -/
def lost : List ParentEvent := if c.fi.state = .connected then [.disc] else []

/-- An index after one more attempt. -/
def nextIdx (i : ℕ) : ℕ := if i < reestablishDelayCount - 1 then i + 1 else i

/-- `REESTABLISH_DELAY` is entered. -/
def retry : SrvConn :=
  let i := usedIdx now c
  { c with
    fi := ⟨.reestablishDelay, some ⟨3, now + delayMs now c i⟩⟩
    conn := none
    reestablishDelayIdx := nextIdx i
    hist := c.hist ++ [.delay now i (delayMs now c i)] }

/-- `srvc_do_reestablish()`; the delay does not start anew while it is running. -/
def reestablish : Reaction :=
  if c.fi.state = .reestablishDelay then ({ c with reestablishDelayIdx := usedIdx now c }, [])
  else (c.retry now, c.lost)

/-- `SRVC_E_TCP_DOWN`. -/
def down : Reaction :=
  match c.fi.state with
  | .established | .connected => c.reestablish now
  | _ => (c, [])

/-- A stream in the given state was closed. -/
def notified (st : Stream) : Reaction :=
  if st ≠ .closed ∧ notifies st then c.down now else (c, [])

/-- `osmo_stream_cli_close(srvc->conn)`. -/
def close : Reaction :=
  match c.conn with
  | none => (c, [])
  | some st => notified notifies now { c with conn := some .closed } st

/-- `INIT` is entered. -/
def toInit (r : Reaction) : Reaction :=
  ({ r.1 with fi := ⟨.init, none⟩, hist := r.1.hist ++ [.disconnect now] }, r.2 ++ r.1.lost)

/-- The PDU sent when the stream is up. -/
def hello : RsproPDU :=
  if c.ownCompId = .remsimClient then .connectClientReq c.ownCompId c.clslot
  else .connectBankReq c.ownCompId c.bankId.toNat c.numSlots.toNat

/-- What an event does. -/
def react : ServerConnEvent → Reaction
  | .establish =>
      reestablish now { c with
        reestablishDelayIdx := 0
        reestablishLastMs := 0
        hist := c.hist ++ [.establish now] }
  | .disconnect =>
      toInit now (match c.conn with
        | none => (c, [])
        | some st => notified notifies now { c with conn := none } st)
  | .tcpUp =>
      if c.fi.state = .reestablish then
        ({ c with
          fi := ⟨.established, some ⟨1, now + t1WaitClientConnRes⟩⟩
          sent := c.sent ++ [c.hello] }, [])
      else (c, [])
  | .tcpDown => c.down now
  | .kaTimeout => c.down now
  | .clientConnRes res =>
      if c.fi.state = .established then
        if res ≠ .ok then c.close notifies now
        else ({ c with fi := ⟨.connected, none⟩ }, [.conn])
      else (c, [])
  | .rsproTx pdu =>
      if c.fi.state = .connected then ({ c with sent := c.sent ++ [pdu] }, []) else (c, [])

/-- What the expiry of a timer does. -/
def timeout : ℕ → Reaction
  | 3 =>
      if c.fi.state = .reestablishDelay then
        ({ c with
          fi := ⟨.reestablish, some ⟨2, now + t2Reconnect⟩⟩
          conn := some .connecting
          reestablishLastMs := now
          hist := c.hist ++ [.attempt now c.reestablishDelayIdx] }, [])
      else (c, [])
  | 2 => c.reestablish now
  | 1 => c.close notifies now
  | _ => (c, [])

/-- The running timer expires, if it is due. -/
def expired : Option Reaction :=
  match c.fi.timer with
  | none => none
  | some t =>
      if t.due ≤ now then
        some (timeout notifies now { c with fi := { c.fi with timer := none } } t.T)
      else none

/-! ### Rules for the reactions -/

variable {notifies} {now} {c} {P : Reaction → Prop}

/-- The loss of a stream ends an attempt or a connection, and changes nothing in other states. -/
theorem down_rule
    (hr : c.fi.state = .established ∨ c.fi.state = .connected → P (c.retry now, c.lost))
    (hc : c.fi.state ≠ .established → P (c, [])) : P (c.down now) := by
  unfold down reestablish
  cases hs : c.fi.state with
  | established =>
      rw [if_neg nofun]
      exact hr (.inl hs)
  | connected =>
      rw [if_neg nofun]
      exact hr (.inr hs)
  | _ => exact hc (by rw [hs]; decide)

/-- So does a stream that was closed. -/
theorem notified_rule
    (hr : c.fi.state = .established ∨ c.fi.state = .connected → P (c.retry now, c.lost))
    (hc : P (c, [])) (st : Stream) : P (c.notified notifies now st) := by
  unfold notified
  split_ifs
  · exact down_rule hr fun _ => hc
  · exact hc

/-- And closing it; no state but the stream's may have changed before. -/
theorem close_rule
    (hr : c.fi.state = .established ∨ c.fi.state = .connected → P (c.retry now, c.lost))
    (hc : ∀ conn, P ({ c with conn := conn }, [])) : P (c.close notifies now) := by
  unfold close
  cases c.conn with
  | none => exact hc c.conn
  | some st => exact notified_rule (c := { c with conn := some .closed }) hr (hc _) st

theorem expired_eq {r : Reaction} (h : c.expired notifies now = some r) :
    ∃ t, c.fi.timer = some t ∧ t.due ≤ now ∧
      r = timeout notifies now { c with fi := { c.fi with timer := none } } t.T := by
  unfold expired at h
  cases ht : c.fi.timer with
  | none =>
      rw [ht] at h
      cases h
  | some t =>
      simp only [ht] at h
      split_ifs at h with hd
      exact ⟨t, rfl, hd, (Option.some.inj h).symm⟩

end SrvConn

namespace Host

variable {σ : Type}

/-- The connection is a part of the program state that the parent leaves alone. -/
structure Lawful (H : Host σ) : Prop where
  get_set : ∀ c s, H.get (H.set c s) = c
  set_set : ∀ c c' s, H.set c (H.set c' s) = H.set c s
  set_get : ∀ s, H.set (H.get s) s = s
  now_set : ∀ c s, H.now (H.set c s) = H.now s
  get_parent : ∀ e s, H.get (H.parent e s) = H.get s
  now_parent : ∀ e s, H.now (H.parent e s) = H.now s
  parent_set : ∀ e c s, H.parent e (H.set c s) = H.set c (H.parent e s)

variable (H : Host σ)

/-- Several events are sent to the parent. -/
def parents (es : List ParentEvent) (s : σ) : σ := es.foldl (fun s e => H.parent e s) s

/-- The program state after a reaction. -/
def put (r : Reaction) (s : σ) : σ := H.set r.1 (H.parents r.2 s)

variable {H} (h : H.Lawful)

include h

theorem Lawful.parents_set (es : List ParentEvent) (c : SrvConn) (s : σ) :
    H.parents es (H.set c s) = H.set c (H.parents es s) := by
  induction es generalizing s with
  | nil => rfl
  | cons e es ih =>
      show H.parents es (H.parent e (H.set c s)) = H.set c (H.parents es (H.parent e s))
      rw [h.parent_set, ih]

theorem Lawful.put_set (r : Reaction) (c : SrvConn) (s : σ) : H.put r (H.set c s) = H.put r s := by
  unfold put
  rw [h.parents_set, h.set_set]

theorem Lawful.put_put (r r' : Reaction) (s : σ) :
    H.put r (H.put r' s) = H.put (r.1, r'.2 ++ r.2) s := by
  show H.put r (H.set r'.1 (H.parents r'.2 s)) = H.set r.1 (H.parents (r'.2 ++ r.2) s)
  rw [h.put_set]
  unfold put parents
  rw [List.foldl_append]

theorem Lawful.get_put (r : Reaction) (s : σ) : H.get (H.put r s) = r.1 := h.get_set _ _

theorem Lawful.now_parents (es : List ParentEvent) (s : σ) : H.now (H.parents es s) = H.now s := by
  induction es generalizing s with
  | nil => rfl
  | cons e es ih => exact (ih _).trans (h.now_parent e s)

theorem Lawful.now_put (r : Reaction) (s : σ) : H.now (H.put r s) = H.now s :=
  (h.now_set _ _).trans (h.now_parents _ _)

theorem Lawful.mod_put (f : SrvConn → SrvConn) (r : Reaction) (s : σ) :
    H.mod f (H.put r s) = H.put (f r.1, r.2) s := by
  unfold mod
  rw [h.get_put]
  exact h.set_set _ _ _

theorem Lawful.put_get (s : σ) : H.put (H.get s, []) s = s := h.set_get s

omit h in
theorem mod_eq (f : SrvConn → SrvConn) (s : σ) : H.mod f s = H.put (f (H.get s), []) s := rfl

theorem Lawful.onleave_put (c : SrvConn) (fi : Fsm.Inst ServerConnState) (s : σ) :
    H.onleave c.fi.state (H.put ({ c with fi := fi }, []) s) =
      H.put ({ c with fi := fi }, c.lost) s := by
  unfold onleave SrvConn.lost
  cases c.fi.state with
  | connected => exact h.parent_set _ _ _
  | _ => rfl

theorem Lawful.stateChg_eq (n : ℕ) (st : ServerConnState) (t T : ℕ) (s : σ)
    (hst : ServerConnState.outStateMask (H.get s).fi.state st = true) :
    (H.machine (n + 1)).stateChg st t T s = H.onenter (H.machine n) st
      (H.put ({ H.get s with
        fi := ⟨st, if t = 0 then none else some ⟨T, H.now s + t⟩⟩ }, (H.get s).lost) s) := by
  show (if ServerConnState.outStateMask (H.get s).fi.state st = true then _ else _) = _
  rw [if_pos hst]
  simp only [machine, mod_eq, h.onleave_put, h.get_put, h.now_put, h.put_put, List.append_nil]

omit h in
/-- Nothing is dispatched to a connection that waits in `REESTABLISH_DELAY`. -/
theorem notify_delay (n : ℕ) (st : Stream) (s : σ)
    (hst : (H.get s).fi.state = .reestablishDelay) : H.notify (H.machine n) st s = s := by
  have hd : (H.machine n).dispatch .tcpDown s = s := by
    cases n with
    | zero => rfl
    | succ n =>
        refine Fsm.Machine.dispatch_denied rfl ?_
        show ServerConnState.inEventMask (H.get s).fi.state .tcpDown = false
        rw [hst]
        rfl
  unfold notify srvcDisconnectCb
  rw [hd]
  exact ite_self _

theorem Lawful.delay_onenter (n : ℕ) (c : SrvConn) (es : List ParentEvent) (s : σ) (d : ℕ)
    (hfi : c.fi = ⟨.reestablishDelay, some ⟨3, H.now s + d⟩⟩) :
    H.srvcStReestablishDelayOnenter (H.machine n) (H.put (c, es) s) =
      H.put ({ c with
        conn := none
        reestablishDelayIdx := SrvConn.nextIdx c.reestablishDelayIdx
        hist := c.hist ++ [.delay (H.now s) c.reestablishDelayIdx d] }, es) s := by
  obtain ⟨fi, conn, idx, last, own, clslot, host, port, bid, ns, sent, hist⟩ := c
  obtain rfl := hfi
  have harm : H.now s + d - H.now s = d := Nat.add_sub_cancel_left _ _
  have hidx : ∀ x : SrvConn, (if x.reestablishDelayIdx < reestablishDelayCount - 1 then
      { x with reestablishDelayIdx := x.reestablishDelayIdx + 1 } else x) =
        { x with reestablishDelayIdx := SrvConn.nextIdx x.reestablishDelayIdx } := by
    intro x
    unfold SrvConn.nextIdx
    split_ifs <;> rfl
  simp only [srvcStReestablishDelayOnenter, record, h.mod_put, h.get_put, h.now_put,
    Option.map_some, Option.getD_some, harm, hidx]
  cases conn with
  | none => simp only [h.mod_put]
  | some st =>
      simp only [osmoStreamCliClose, h.get_put, h.mod_put]
      rw [notify_delay n st _ (by rw [h.get_put])]
      simp only [h.mod_put]

omit h in
theorem delayMs_pos (now : ℕ) (c : SrvConn) (i : ℕ) : delayMs now c i ≠ 0 := by
  unfold delayMs
  simp only
  split_ifs with hd
  · omega
  · decide

theorem Lawful.doReestablish (n : ℕ) (s : σ) :
    H.srvcDoReestablish (H.machine (n + 1)) s =
      H.put ((H.get s).reestablish (H.now s)) s := by
  unfold srvcDoReestablish SrvConn.reestablish
  simp only [mod_eq, h.now_put]
  split_ifs with hst
  · refine Fsm.Machine.stateChg_denied ?_
    show ServerConnState.outStateMask (H.get (H.put _ s)).fi.state .reestablishDelay = false
    rw [h.get_put, hst]
    rfl
  · have hmask : ServerConnState.outStateMask (H.get s).fi.state .reestablishDelay = true := by
      cases hs : (H.get s).fi.state <;> first | rfl | exact absurd hs hst
    rw [h.stateChg_eq n _ _ _ _ (by rw [h.get_put]; exact hmask), h.get_put, h.now_put,
      if_neg (delayMs_pos _ _ _)]
    rw [h.put_put]
    exact h.delay_onenter n _ _ s _ rfl

theorem Lawful.tcpDown (n : ℕ) (s : σ) :
    (H.machine (n + 2)).dispatch .tcpDown s = H.put ((H.get s).down (H.now s)) s := by
  unfold SrvConn.down
  have hact : ServerConnState.inEventMask (H.get s).fi.state .tcpDown = true →
      (H.machine (n + 2)).dispatch .tcpDown s =
        H.action (H.machine (n + 1)) (H.get s).fi.state .tcpDown s :=
    fun hm => Fsm.Machine.dispatch_action rfl hm
  cases hs : (H.get s).fi.state with
  | established =>
      rw [hact (by rw [hs]; rfl), hs]
      exact h.doReestablish n s
  | connected =>
      rw [hact (by rw [hs]; rfl), hs]
      exact h.doReestablish n s
  | reestablish =>
      rw [hact (by rw [hs]; rfl), hs]
      exact (h.put_get s).symm
  | init =>
      rw [h.put_get]
      refine Fsm.Machine.dispatch_denied rfl ?_
      show ServerConnState.inEventMask (H.get s).fi.state .tcpDown = false
      rw [hs]
      rfl
  | reestablishDelay =>
      rw [h.put_get]
      refine Fsm.Machine.dispatch_denied rfl ?_
      show ServerConnState.inEventMask (H.get s).fi.state .tcpDown = false
      rw [hs]
      rfl

theorem Lawful.notify_eq (n : ℕ) (st : Stream) (s : σ) :
    H.notify (H.machine (n + 2)) st s =
      H.put ((H.get s).notified H.notifies (H.now s) st) s := by
  unfold notify SrvConn.notified srvcDisconnectCb
  split_ifs
  · exact h.tcpDown n s
  · exact (h.put_get s).symm

theorem Lawful.close_eq (n : ℕ) (s : σ) :
    H.osmoStreamCliClose (H.machine (n + 2)) s =
      H.put ((H.get s).close H.notifies (H.now s)) s := by
  unfold osmoStreamCliClose SrvConn.close
  cases hc : (H.get s).conn with
  | none => exact (h.put_get s).symm
  | some st =>
      simp only
      rw [h.notify_eq, mod_eq, h.get_put, h.now_put, h.put_put]
      rfl

theorem Lawful.dispatch_action (n : ℕ) {e : ServerConnEvent} (s : σ) (ha : e.allstate = false) :
    (H.machine (n + 1)).dispatch e s =
      if ServerConnState.inEventMask (H.get s).fi.state e then
        H.action (H.machine n) (H.get s).fi.state e s
      else H.put (H.get s, []) s := by
  rw [h.put_get]
  show (if e.allstate = true then _ else _) = _
  rw [if_neg (by rw [ha]; decide)]
  rfl

theorem Lawful.disconnect (n : ℕ) (s : σ) :
    (H.machine (n + 3)).dispatch .disconnect s =
      H.put ((H.get s).react H.notifies (H.now s) .disconnect) s := by
  -- `INIT` may follow every state
  have hinit : ∀ t : σ, (H.machine (n + 2)).stateChg .init 0 0 t =
      H.put ({ H.get t with fi := ⟨.init, none⟩ }, (H.get t).lost) t := by
    intro t
    rw [h.stateChg_eq (n + 1) .init 0 0 t (by cases (H.get t).fi.state <;> rfl), if_pos rfl]
    rfl
  rw [Fsm.Machine.dispatch_allstate rfl]
  show (H.machine (n + 2)).stateChg .init 0 0 _ = _
  rw [hinit]
  simp only [record, mod_eq, SrvConn.react]
  cases hc : (H.get s).conn with
  | none =>
      simp only [h.get_put, h.put_put]
      rfl
  | some st =>
      simp only [h.notify_eq, h.get_put, h.now_put, h.put_put, List.append_nil]
      rfl

/-- **The nested machine does what the table of reactions says**, at any depth from three on. -/
theorem Lawful.dispatch_react (n : ℕ) (e : ServerConnEvent) (s : σ) :
    (H.machine (n + 3)).dispatch e s = H.put ((H.get s).react H.notifies (H.now s) e) s := by
  cases e with
  | establish =>
      rw [Fsm.Machine.dispatch_allstate rfl]
      show H.srvcDoReestablish (H.machine (n + 2)) _ = _
      rw [h.doReestablish]
      simp only [record, mod_eq, h.get_put, h.now_put, h.put_put]
      rfl
  | disconnect => exact h.disconnect n s
  | tcpUp =>
      rw [h.dispatch_action _ s rfl]
      unfold SrvConn.react
      cases hs : (H.get s).fi.state with
      | reestablish =>
          show (H.machine (n + 2)).stateChg .established t1WaitClientConnRes 1 s = _
          rw [h.stateChg_eq (n + 1) _ _ _ s (by rw [hs]; rfl), if_neg (by decide)]
          have hl : (H.get s).lost = [] := if_neg (by rw [hs]; decide)
          simp only [onenter, srvcStEstablishedOnenter, serverConnSendRspro, h.mod_put, h.get_put,
            hl, if_true]
          rfl
      | _ => rfl
  | tcpDown => exact h.tcpDown (n + 1) s
  | kaTimeout =>
      rw [h.dispatch_action _ s rfl]
      unfold SrvConn.react SrvConn.down
      cases hs : (H.get s).fi.state with
      | established => exact h.doReestablish (n + 1) s
      | connected => exact h.doReestablish (n + 1) s
      | _ => rfl
  | clientConnRes res =>
      rw [h.dispatch_action _ s rfl]
      simp only [SrvConn.react]
      cases hs : (H.get s).fi.state with
      | established =>
          show (if res ≠ .ok then H.osmoStreamCliClose (H.machine (n + 2))
            else (H.machine (n + 2)).stateChg .connected 0 0) s = _
          rw [if_pos rfl]
          split_ifs
          · exact h.close_eq n s
          · rw [h.stateChg_eq (n + 1) _ _ _ s (by rw [hs]; rfl), if_pos rfl]
            have hl : (H.get s).lost = [] := if_neg (by rw [hs]; decide)
            simp only [onenter, srvcStConnectedOnenter, hl]
            exact h.parent_set _ _ _
      | _ => rfl
  | rsproTx pdu =>
      rw [h.dispatch_action _ s rfl]
      unfold SrvConn.react
      cases hs : (H.get s).fi.state with
      | connected => rfl
      | _ => rfl

theorem Lawful.timerCb_timeout (n T : ℕ) (s : σ) :
    H.serverConnFsmTimerCb (H.machine (n + 2)) T s =
      H.put ((H.get s).timeout H.notifies (H.now s) T) s := by
  match T with
  | 3 =>
      show (H.machine (n + 2)).stateChg .reestablish t2Reconnect 2 s = _
      simp only [SrvConn.timeout]
      split_ifs with hs
      · rw [h.stateChg_eq (n + 1) _ _ _ s (by rw [hs]; rfl), if_neg (by decide)]
        have hl : (H.get s).lost = [] := if_neg (by rw [hs]; decide)
        simp only [onenter, srvcStReestablishOnenter, record, h.mod_put, h.get_put, h.now_put, hl]
      · rw [h.put_get]
        refine Fsm.Machine.stateChg_denied ?_
        show ServerConnState.outStateMask (H.get s).fi.state .reestablish = false
        cases hs' : (H.get s).fi.state <;> first | rfl | exact absurd hs' hs
  | 2 => exact h.doReestablish (n + 1) s
  | 1 => exact h.close_eq n s
  | 0 => exact (h.put_get s).symm
  | _ + 4 => exact (h.put_get s).symm

theorem Lawful.dispatch_eq (e : ServerConnEvent) (s : σ) :
    H.dispatch e s = H.put ((H.get s).react H.notifies (H.now s) e) s := h.dispatch_react 0 e s

theorem Lawful.expire_eq (s : σ) :
    H.expire s = ((H.get s).expired H.notifies (H.now s)).map fun r => H.put r s := by
  have hinst : (H.machine depth).inst s = (H.get s).fi := rfl
  unfold expire Fsm.Machine.expire SrvConn.expired
  rw [hinst]
  cases (H.get s).fi.timer with
  | none => rfl
  | some t =>
      simp only [show (H.machine depth).now = H.now from rfl]
      split_ifs
      · show some (H.serverConnFsmTimerCb (H.machine 2) t.T
          (H.mod (fun c => { c with fi := ⟨(H.get s).fi.state, none⟩ }) s)) = _
        rw [h.timerCb_timeout 0, mod_eq, h.get_put, h.now_put, h.put_put]
        rfl
      · rfl

end Host
end Remsim
