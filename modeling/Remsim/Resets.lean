import Remsim.Driver
import Remsim.Lists
import Remsim.Worker

/-! # Resets of the card, from a frontend to the worker

A frontend turns a request into reports of the levels of two lines, VCC and reset, and the worker
at the bankd resets the card on their edges.  `Lines` is the edge detector alone.  A session
composes a frontend with the worker that serves it: the PDUs that a request adds to the connection
are handled in order, with any answers of PC/SC and of the rest of the bankd.  The session is taken
to last: a PDU sent on it is handled.

`calls_eq` reduces the calls of `reset_card` in a session to runs of the edge detector. -/

namespace Remsim

/-! ### The edge detector -/

/-- The last levels that were reported, `last_vccPresent` and `last_resetActive`. -/
structure Lines where
  vccPresent : Bool
  resetActive : Bool
deriving DecidableEq, Repr

namespace Lines

/-- The levels at the start of a session. -/
def fresh : Lines := ⟨true, false⟩

/-- The levels after a report. -/
def report (e : Lines) (st : SlotPhysStatus) : Lines :=
  ⟨st.vccPresent.getD e.vccPresent, st.resetActive⟩

/-- The resets for a report: a cold one on a falling edge of VCC, else a warm one on a rising edge
of reset. -/
def resets (e : Lines) (st : SlotPhysStatus) : ℕ :=
  if st.vccPresent = some false then e.vccPresent.toNat
  else (st.resetActive && !e.resetActive).toNat

/-- The levels after several reports, and the number of resets for them. -/
def run (e : Lines) : List SlotPhysStatus → Lines × ℕ
  | [] => (e, 0)
  | st :: sts => (((e.report st).run sts).1, e.resets st + ((e.report st).run sts).2)

section
variable {ρ : Type} (lines : ρ → List SlotPhysStatus)

/-- The levels after several requests, each with its reports. -/
def after (e : Lines) (rs : List ρ) : Lines := rs.foldl (fun e r => (e.run (lines r)).1) e

/-- The number of resets for each of several requests. -/
def calls (e : Lines) : List ρ → List ℕ
  | [] => []
  | r :: rs => (e.run (lines r)).2 :: calls (e.run (lines r)).1 rs

theorem calls_getElem? (r : ρ) (post : List ρ) : ∀ (pre : List ρ) (e : Lines),
    (e.calls lines (pre ++ r :: post))[pre.length]? = some ((e.after lines pre).run (lines r)).2
  | [], _ => rfl
  | _ :: pre, _ => calls_getElem? r post pre _

end
end Lines

/-! ### The worker -/

/-- The levels in a PDU. -/
def RsproPDU.status : RsproPDU → Option SlotPhysStatus
  | .clientSlotStatusInd st => some st
  | _ => none

namespace Worker

/-- The edge detector of a worker. -/
def lines (w : Worker) : Lines := ⟨w.lastVccPresent, w.lastResetActive⟩

/-- The calls of `reset_card` while a PDU is handled. -/
def resetCalls (w : Worker) : RsproPDU → ℕ
  | .clientSlotStatusInd st => (w.resets st).isSome.toNat
  | _ => 0

/-- PDUs are handled in order, and the calls of `reset_card` are counted.  The answers of PC/SC and
of the process depend on the number of PDUs handled so far. -/
def handlePdus (env : ℕ → View × Io) : ℕ → List RsproPDU → Worker → Worker × ℕ
  | _, [], w => (w, 0)
  | n, pdu :: pdus, w =>
      let r := handlePdus env (n + 1) pdus (w.handleRspro (env n).1 (env n).2 pdu)
      (r.1, w.resetCalls pdu + r.2)

variable {w : Worker}

theorem lines_sendRspro (pdu : RsproPDU) (ok : Bool) : (w.sendRspro pdu ok).lines = w.lines := by
  unfold sendRspro
  split_ifs <;> rfl

theorem lines_again : w.again.lines = w.lines := by
  unfold again
  split_ifs <;> rfl

theorem resetCalls_status (st : SlotPhysStatus) :
    w.resetCalls (.clientSlotStatusInd st) = w.lines.resets st := by
  show (w.resets st).isSome.toNat = w.lines.resets st
  unfold resets Lines.resets lines
  by_cases hv : st.vccPresent = some false
  · rw [if_pos hv, if_pos hv]
    cases w.lastVccPresent <;> rfl
  · rw [if_neg hv, if_neg hv]
    cases st.resetActive <;> cases w.lastResetActive <;> rfl

/-- Only the reports of levels change the edge detector. -/
theorem lines_handleRspro (v : View) (io : Io) (pdu : RsproPDU) :
    (w.handleRspro v io pdu).lines = (w.lines.run pdu.status.toList).1 := by
  cases pdu with
  | connectClientReq identity clientSlot =>
      simp only [handleRspro, handleConnectClientReq]
      split_ifs
      · exact lines_sendRspro _ _
      · cases clientSlot with
        | none => exact lines_sendRspro _ _
        | some cs => rfl
  | tpduModemToCard src dst data =>
      simp only [handleRspro, handleTpduModemToCard]
      cases v.tpdu src dst data io with
      | none => rfl
      | some resp => exact lines_again.trans (lines_sendRspro _ _)
  | clientSlotStatusInd st => exact lines_again
  | setAtrRes r => exact lines_again
  | _ => rfl

theorem resetCalls_eq (pdu : RsproPDU) :
    w.resetCalls pdu = (w.lines.run pdu.status.toList).2 := by
  cases pdu with
  | clientSlotStatusInd st => exact resetCalls_status st
  | _ => rfl

theorem handlePdus_run (env : ℕ → View × Io) : ∀ (pdus : List RsproPDU) (n : ℕ) (w : Worker),
    (w.handlePdus env n pdus).1.lines = (w.lines.run (pdus.filterMap RsproPDU.status)).1 ∧
      (w.handlePdus env n pdus).2 = (w.lines.run (pdus.filterMap RsproPDU.status)).2
  | [], _, _ => ⟨rfl, rfl⟩
  | pdu :: pdus, n, w => by
      obtain ⟨hl, hc⟩ := handlePdus_run env pdus (n + 1) (w.handleRspro (env n).1 (env n).2 pdu)
      have hw := lines_handleRspro (w := w) (env n).1 (env n).2 pdu
      have hr := resetCalls_eq (w := w) pdu
      simp only [handlePdus, List.filterMap_cons]
      rw [hl, hc, hw, hr]
      cases pdu.status with
      | none => exact ⟨rfl, Nat.zero_add _⟩
      | some st => exact ⟨rfl, rfl⟩

end Worker

/-! ### Sessions -/

/-- A frontend of a client: what a request does, and the PDUs sent to the bankd so far. -/
structure Frontend (σ ρ : Type) where
  act : ρ → σ → σ
  sent : σ → List RsproPDU

/-- A frontend, the worker that serves it, and the number of PDUs the worker has handled. -/
structure Session (σ : Type) where
  front : σ
  worker : Worker
  handled : ℕ

namespace Session

variable {σ ρ : Type} (F : Frontend σ ρ) (env : ℕ → View × Io)

/-- The session after a request, and the calls of `reset_card` for it. -/
def request (s : Session σ) (r : ρ) : Session σ × ℕ :=
  let front := F.act r s.front
  let pdus := (F.sent front).drop (F.sent s.front).length
  let h := s.worker.handlePdus env s.handled pdus
  (⟨front, h.1, s.handled + pdus.length⟩, h.2)

/-- The calls of `reset_card` for each of several requests. -/
def calls (s : Session σ) : List ρ → List ℕ
  | [] => []
  | r :: rs => (s.request F env r).2 :: calls (s.request F env r).1 rs

end Session

/-- In the states that satisfy `P`, the requests of a frontend report these levels. -/
structure Frontend.Reports {σ ρ : Type} (F : Frontend σ ρ) (P : σ → Prop)
    (lines : ρ → List SlotPhysStatus) : Prop where
  keeps : ∀ r s, P s → P (F.act r s)
  sends : ∀ r s, P s →
    ∃ pdus, F.sent (F.act r s) = F.sent s ++ pdus ∧ pdus.filterMap RsproPDU.status = lines r

/-- **A session resets the card as the edge detector says.** -/
theorem Frontend.Reports.calls_eq {σ ρ : Type} {F : Frontend σ ρ} {P : σ → Prop}
    {lines : ρ → List SlotPhysStatus} (h : F.Reports P lines) (env : ℕ → View × Io) :
    ∀ (rs : List ρ) (s : Session σ), P s.front →
      s.calls F env rs = s.worker.lines.calls lines rs
  | [], _, _ => rfl
  | r :: rs, s, hp => by
      obtain ⟨pdus, hpdus, hlines⟩ := h.sends r s.front hp
      have hdrop : (F.sent (F.act r s.front)).drop (F.sent s.front).length = pdus := by
        rw [hpdus]
        exact List.drop_left
      obtain ⟨hl, hc⟩ := Worker.handlePdus_run env pdus s.handled s.worker
      rw [hlines] at hl hc
      have hfront : (s.request F env r).1.front = F.act r s.front := rfl
      have hworker : (s.request F env r).1.worker = (s.worker.handlePdus env s.handled pdus).1 := by
        simp only [Session.request, hdrop]
      have hcount : (s.request F env r).2 = (s.worker.handlePdus env s.handled pdus).2 := by
        simp only [Session.request, hdrop]
      have ih := h.calls_eq env rs (s.request F env r).1 (by rw [hfront]; exact h.keeps r _ hp)
      rw [hworker, hl] at ih
      show (s.request F env r).2 :: (s.request F env r).1.calls F env rs = _
      rw [ih, hcount, hc]
      rfl

/-! ### The two frontends -/

/-- A command of the shell client: `RESET`, a C-APDU, or something that is not understood. -/
inductive ShellCommand where
  | reset
  | apdu (data : List UInt8)
  | invalid
deriving DecidableEq, Repr

/-- `handle_stdin_command()`. -/
def handleStdinCommand (notifies : Stream → Bool) : ShellCommand → Client → Client
  | .reset => Client.dispatch notifies (.mdmStatusInd ⟨1, 0⟩)
  | .apdu data => Client.dispatch notifies (.mdmTpdu data)
  | .invalid => id

/-- The shell client. -/
def shell (notifies : Stream → Bool) : Frontend Client ShellCommand where
  act := handleStdinCommand notifies
  sent c := c.bankdConn.sent

/-- The PC/SC driver; a request that the client thread cannot read changes nothing. -/
def ifd (notifies : Stream → Bool) : Frontend Driver IfdRequest where
  act r d := ((r.msg.bind Itmsg.received).bind fun m => d.handleItMsg notifies m).getD d
  sent d := d.client.bankdConn.sent

/-- The levels that a command reports. -/
def ShellCommand.lines : ShellCommand → List SlotPhysStatus
  | .reset => [⟨true, some false⟩]
  | _ => []

namespace IfdRequest

/-- The levels that a request reports. -/
def lines : IfdRequest → List SlotPhysStatus
  | .powerOff => [⟨true, some false⟩]
  | .powerOn => [⟨false, some true⟩]
  | .reset => [⟨true, some true⟩, ⟨false, some true⟩]
  | _ => []

/-- A request that changes the lines. -/
def isLine : IfdRequest → Bool
  | .powerOff | .powerOn | .reset => true
  | _ => false

/-- The last request that has changed the lines. -/
def lastLine (rs : List IfdRequest) : Option IfdRequest := (rs.filter isLine).getLast?

end IfdRequest

/-- **Every `RESET` command resets the card once.** -/
def ShellResets (rs : List ShellCommand) (calls : List ℕ) : Prop :=
  ∀ pre post, rs = pre ++ .reset :: post → calls[pre.length]? = some 1

/-- **The requests of the PC/SC driver reset the card**: once for a reset, once for a power-off that
is the first to change the lines or follows a power-on or a reset, and never for a power-on. -/
structure IfdResets (rs : List IfdRequest) (calls : List ℕ) : Prop where
  reset : ∀ pre post, rs = pre ++ .reset :: post → calls[pre.length]? = some 1
  powerOff : ∀ pre post, rs = pre ++ .powerOff :: post →
    IfdRequest.lastLine pre = none ∨ IfdRequest.lastLine pre = some .powerOn ∨
      IfdRequest.lastLine pre = some .reset → calls[pre.length]? = some 1
  powerOn : ∀ pre post, rs = pre ++ .powerOn :: post → calls[pre.length]? = some 0

namespace Client

variable {notifies : Stream → Bool} {c : Client}

theorem tx_connected (notifies : Stream → Bool) (hc : c.bankdConn.fi.state = .connected)
    (pdu : RsproPDU) :
    ((bankd notifies).dispatch (.rsproTx pdu) c).bankdConn.fi.state = .connected ∧
      ((bankd notifies).dispatch (.rsproTx pdu) c).bankdConn.sent = c.bankdConn.sent ++ [pdu] := by
  rw [bankd_eq, dispatch_bankdConn]
  simp only [SrvConn.react, hc, if_true, and_self]

theorem dispatch_mdm (notifies : Stream → Bool) (hl : c.Locked)
    (hc : c.bankdConn.fi.state = .connected) :
    (∀ st, c.dispatch notifies (.mdmStatusInd st) =
        (bankd notifies).dispatch (.rsproTx (rsproGenClientSlotStatusInd st)) c) ∧
      ∀ data, c.dispatch notifies (.mdmTpdu data) = (bankd notifies).dispatch
        (.rsproTx (.tpduModemToCard c.clslot (bankSlot2rspro c.bankdSlot) data)) c := by
  have hop : c.mainFi.state = .operational := hl.operational.mpr (SrvConn.isConnected_iff.mpr hc)
  refine ⟨fun st => ?_, fun data => ?_⟩
  · simp only [dispatch_eq, bankd_eq, handle, serve, hop, if_true]
  · simp only [dispatch_eq, bankd_eq, handle, serve, hop, if_true]

end Client

theorem shell_reports (notifies : Stream → Bool) :
    (shell notifies).Reports (fun c => c.Locked ∧ c.bankdConn.fi.state = .connected)
      ShellCommand.lines := by
  have htx : ∀ (c : Client) (pdu : RsproPDU), c.Locked ∧ c.bankdConn.fi.state = .connected →
      ((Client.bankd notifies).dispatch (.rsproTx pdu) c).Locked ∧
        ((Client.bankd notifies).dispatch (.rsproTx pdu) c).bankdConn.fi.state = .connected := by
    intro c pdu hp
    refine ⟨?_, (Client.tx_connected notifies hp.2 pdu).1⟩
    rw [Client.bankd_eq]
    exact hp.1.dispatch nofun
  refine ⟨fun r c hp => ?_, fun r c hp => ?_⟩
  · obtain ⟨hst, hap⟩ := Client.dispatch_mdm notifies hp.1 hp.2
    cases r with
    | reset =>
        have he : (shell notifies).act .reset c = _ := hst ⟨1, 0⟩
        rw [he]
        exact htx c _ hp
    | apdu data =>
        have he : (shell notifies).act (.apdu data) c = _ := hap data
        rw [he]
        exact htx c _ hp
    | invalid => exact hp
  · obtain ⟨hst, hap⟩ := Client.dispatch_mdm notifies hp.1 hp.2
    cases r with
    | reset =>
        refine ⟨[rsproGenClientSlotStatusInd ⟨1, 0⟩], ?_, by decide⟩
        show (Client.dispatch notifies (.mdmStatusInd ⟨1, 0⟩) c).bankdConn.sent = _
        rw [hst]
        exact (Client.tx_connected notifies hp.2 _).2
    | apdu data =>
        refine ⟨[.tpduModemToCard c.clslot (bankSlot2rspro c.bankdSlot) data], ?_, rfl⟩
        show (Client.dispatch notifies (.mdmTpdu data) c).bankdConn.sent = _
        rw [hap]
        exact (Client.tx_connected notifies hp.2 _).2
    | invalid => exact ⟨[], (List.append_nil _).symm, rfl⟩

theorem received_type {r : IfdRequest} {m : Itmsg} (h : r.msg.bind Itmsg.received = some m) :
    m.type = r.reqType := by
  obtain ⟨x, hx, hm⟩ := Option.bind_eq_some_iff.mp h
  simp only [Itmsg.received, Option.ite_none_left_eq_some, Option.some.injEq] at hm
  rw [← hm.2]
  exact (itmsgAlloc_spec hx).1

theorem ifd_reports (notifies : Stream → Bool) :
    (ifd notifies).Reports (fun d => d.client.bankdConn.fi.state = .connected)
      IfdRequest.lines := by
  have hact : ∀ (r : IfdRequest) (d : Driver), d.client.bankdConn.fi.state = .connected →
      ((ifd notifies).act r d).client.bankdConn.fi.state = .connected ∧
        ∃ pdus, ((ifd notifies).act r d).client.bankdConn.sent = d.client.bankdConn.sent ++ pdus ∧
          pdus.filterMap RsproPDU.status = r.lines := by
    intro r d hc
    have hsame : ∀ u : Driver, u.client = d.client → r.lines = [] →
        u.client.bankdConn.fi.state = .connected ∧
          ∃ pdus, u.client.bankdConn.sent = d.client.bankdConn.sent ++ pdus ∧
            pdus.filterMap RsproPDU.status = r.lines := by
      intro u hu hl
      rw [hu, hl]
      exact ⟨hc, [], (List.append_nil _).symm, rfl⟩
    cases r with
    | cardPres => exact hsame _ rfl rfl
    | atr =>
        refine hsame _ ?_ rfl
        show ((d.respond .atrResp 0 d.atr).getD d).client = d.client
        unfold Driver.respond
        cases itmsgAlloc .atrResp 0 d.atr with
        | none => rfl
        | some m => rfl
    | powerOff =>
        obtain ⟨h₁, h₂⟩ := Client.tx_connected notifies hc (rsproGenClientSlotStatusInd ⟨1, 0⟩)
        exact ⟨h₁, _, h₂, by decide⟩
    | powerOn =>
        obtain ⟨h₁, h₂⟩ := Client.tx_connected notifies hc (rsproGenClientSlotStatusInd ⟨0, 1⟩)
        exact ⟨h₁, _, h₂, by decide⟩
    | reset =>
        obtain ⟨h₁, h₂⟩ := Client.tx_connected notifies hc (rsproGenClientSlotStatusInd ⟨1, 1⟩)
        obtain ⟨h₃, h₄⟩ := Client.tx_connected notifies h₁ (rsproGenClientSlotStatusInd ⟨0, 1⟩)
        rw [h₂, List.append_assoc] at h₄
        exact ⟨h₃, _, h₄, by decide⟩
    | cApdu data =>
        cases hm : (IfdRequest.cApdu data).msg.bind Itmsg.received with
        | none =>
            have he : (ifd notifies).act (.cApdu data) d = d := by
              simp only [ifd, hm, Option.bind_none, Option.getD_none]
            exact hsame _ (by rw [he]) rfl
        | some m =>
            have he : (ifd notifies).act (.cApdu data) d = d.serverConnSendRspro notifies
                (.tpduModemToCard d.client.clslot (bankSlot2rspro d.client.bankdSlot) m.data) := by
              simp only [ifd, hm, Option.bind_some, Driver.handleItMsg, received_type hm,
                IfdRequest.reqType, Option.getD_some]
            rw [he]
            obtain ⟨h₁, h₂⟩ := Client.tx_connected notifies hc
              (.tpduModemToCard d.client.clslot (bankSlot2rspro d.client.bankdSlot) m.data)
            exact ⟨h₁, _, h₂, rfl⟩
  exact ⟨fun r d hp => (hact r d hp).1, fun r d hp => (hact r d hp).2⟩

/-! ### When every reset reaches the card -/

/-- After a `RESET` the shell client leaves VCC off. -/
theorem after_shell (rs : List ShellCommand) :
    Lines.fresh.after ShellCommand.lines rs = if .reset ∈ rs then ⟨false, true⟩ else .fresh := by
  induction rs using List.reverseRecOn with
  | nil => rfl
  | append_singleton rs r ih =>
      unfold Lines.after at ih ⊢
      rw [List.foldl_append, ih]
      cases r with
      | reset => split_ifs <;> simp_all [Lines.run, ShellCommand.lines, Lines.report]
      | apdu data => simp [Lines.run, ShellCommand.lines]
      | invalid => simp [Lines.run, ShellCommand.lines]

/-- Reset is left active by a power-off only. -/
theorem after_ifd (rs : List IfdRequest) :
    Lines.fresh.after IfdRequest.lines rs =
      if IfdRequest.lastLine rs = some .powerOff then ⟨false, true⟩ else .fresh := by
  induction rs using List.reverseRecOn with
  | nil => rfl
  | append_singleton rs r ih =>
      have hlast : IfdRequest.lastLine (rs ++ [r]) =
          if r.isLine then some r else IfdRequest.lastLine rs := by
        unfold IfdRequest.lastLine
        rw [List.filter_append]
        cases hr : r.isLine with
        | true => simp [hr]
        | false => simp [hr]
      unfold Lines.after at ih ⊢
      rw [List.foldl_append, ih, hlast]
      cases r with
      | powerOff => rfl
      | powerOn => split_ifs <;> first | rfl | simp_all [IfdRequest.isLine]
      | reset => split_ifs <;> first | rfl | simp_all [IfdRequest.isLine]
      | _ => rfl

theorem calls_shell (pre post : List ShellCommand) :
    (Lines.fresh.calls ShellCommand.lines (pre ++ .reset :: post))[pre.length]? =
      some (if .reset ∈ pre then 0 else 1) := by
  rw [Lines.calls_getElem?, after_shell]
  split_ifs <;> rfl

theorem calls_ifd (pre post : List IfdRequest) (r : IfdRequest) :
    (Lines.fresh.calls IfdRequest.lines (pre ++ r :: post))[pre.length]? = some
      (match r with
        | .reset => if IfdRequest.lastLine pre = some .powerOff then 0 else 1
        | .powerOff => if IfdRequest.lastLine pre = some .powerOff then 0 else 1
        | _ => 0) := by
  rw [Lines.calls_getElem?, after_ifd]
  cases r <;> split_ifs <;> rfl

/-- A session whose worker has just been given to it. -/
def Session.Fresh {σ : Type} (s : Session σ) : Prop := s.worker.lines = Lines.fresh

/-- **Every reset reaches the card exactly when** the shell client is given at most one `RESET`, and
the PC/SC driver is asked for no reset while the last of its requests that changed the lines is a
power-off. -/
theorem resets_iff (notifies : Stream → Bool) (env : ℕ → View × Io) :
    (∀ (s : Session Client) (rs : List ShellCommand), s.Fresh →
        (Client.lts notifies).Reach Transition.Lts.Any s.front →
        s.front.bankdConn.fi.state = .connected →
        (ShellResets rs (s.calls (shell notifies) env rs) ↔ rs.count .reset ≤ 1)) ∧
      ∀ (s : Session Driver) (rs : List IfdRequest), s.Fresh →
        s.front.client.bankdConn.fi.state = .connected →
        (IfdResets rs (s.calls (ifd notifies) env rs) ↔
          ∀ pre post, rs = pre ++ .reset :: post → IfdRequest.lastLine pre ≠ some .powerOff) := by
  refine ⟨fun s rs hs hr hc => ?_, fun s rs hs hc => ?_⟩
  · have hcalls := (shell_reports notifies).calls_eq env rs s ⟨Client.reach_locked hr, hc⟩
    rw [hcalls, hs, ListLib.count_le_one_iff]
    refine ⟨fun h pre post hrs hmem => ?_, fun h pre post hrs => ?_⟩
    · have h₁ := h pre post hrs
      rw [hrs, calls_shell, if_pos hmem] at h₁
      cases h₁
    · rw [hrs, calls_shell, if_neg (h pre post hrs)]
  · have hcalls := (ifd_reports notifies).calls_eq env rs s hc
    rw [hcalls, hs]
    refine ⟨fun h pre post hrs hlast => ?_, fun h => ⟨fun pre post hrs => ?_,
      fun pre post hrs hlast => ?_, fun pre post hrs => ?_⟩⟩
    · have h₁ := h.reset pre post hrs
      rw [hrs, calls_ifd] at h₁
      simp only [if_pos hlast] at h₁
      cases h₁
    · rw [hrs, calls_ifd]
      simp only [if_neg (h pre post hrs)]
    · rw [hrs, calls_ifd]
      rcases hlast with hlast | hlast | hlast
      · simp only [hlast, reduceCtorEq, if_false]
      · simp only [hlast, Option.some.injEq, reduceCtorEq, if_false]
      · simp only [hlast, Option.some.injEq, reduceCtorEq, if_false]
    · rw [hrs, calls_ifd]

/-- The client of `Client.assignedRun`, connected to its bankd. -/
def connectedClient : Client :=
  Transition.after (Client.next fun _ => true) Client.started Client.assignedRun

/-- A client connected to its bankd, and a worker that has a card for it. -/
def shellSession : Session Client where
  front := connectedClient
  worker := { Worker.fresh with pc := .wait, state := .connClientMappedCard, slot := ⟨1, 2⟩ }
  handled := 0

/-- The same client as part of the PC/SC driver. -/
def ifdSession : Session Driver where
  front := { Driver.opened with client := connectedClient }
  worker := shellSession.worker
  handled := 0

/-- PC/SC fails, and nothing is known of the process. -/
def failing : ℕ → View × Io := fun _ =>
  (⟨⟨fun _ => false, fun _ _ => false⟩, fun _ => none, fun _ => none, fun _ _ _ _ => none⟩,
    ⟨false, none, false, none, false, none, false, false⟩)

/-- One `RESET` of the shell, and a power cycle with a reset. -/
theorem power_cycle_resets :
    ShellResets [.reset] (shellSession.calls (shell fun _ => true) failing [.reset]) ∧
      IfdResets [.powerOff, .powerOn, .reset]
        (ifdSession.calls (ifd fun _ => true) failing [.powerOff, .powerOn, .reset]) := by
  have hrun : (Transition.exec (Client.next fun _ => true) Client.started
      Client.assignedRun).isSome = true := by decide +kernel
  have hreach : (Client.lts fun _ => true).Reach Transition.Lts.Any shellSession.front := by
    simp only [shellSession, connectedClient]
    exact Transition.reach_after ⟨rfl, rfl, rfl, rfl⟩ hrun (by decide +kernel)
  obtain ⟨hshell, hifd⟩ := resets_iff (fun _ => true) failing
  refine ⟨(hshell shellSession [.reset] rfl hreach (by decide +kernel)).mpr (by decide),
    (hifd ifdSession [.powerOff, .powerOn, .reset] rfl (by decide +kernel)).mpr ?_⟩
  intro pre post hrs
  match pre, hrs with
  | [], hrs => cases hrs
  | [_], hrs => cases hrs
  | [_, _], hrs =>
      cases hrs
      decide
  | _ :: _ :: _ :: _, hrs => simp at hrs

/-- The second `RESET` of the shell does not reset the card, nor does a reset after a power-off. -/
theorem second_reset_lost :
    ¬ShellResets [.reset, .reset]
        (shellSession.calls (shell fun _ => true) failing [.reset, .reset]) ∧
      ¬IfdResets [.powerOff, .reset]
        (ifdSession.calls (ifd fun _ => true) failing [.powerOff, .reset]) := by
  refine ⟨fun h => ?_, fun h => ?_⟩
  · exact absurd (h [.reset] [] rfl) (by decide +kernel)
  · exact absurd (h.reset [.powerOff] [] rfl) (by decide +kernel)

end Remsim
