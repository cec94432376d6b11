import Remsim.ClientMain
import Remsim.Lists

/-! # Modem status events (`main_fsm.c`, `rspro_util.c`)

A client with what `ClientMain` leaves out of it: all four flags of a status indication from the
frontend, the indication that was remembered last, and the calls of the event script with the
cause `event-modem-status`, which only `MF_E_MDM_STATUS_IND` makes.  `Monitored.reports` records
what each indication did that was processed in `OPERATIONAL`.  Nothing else changes: a run of the
monitored client is a run of the client (`reach_client`), and what a report says was sent is what
the client sent (`sent_modemStatus`). -/

namespace Remsim

/-- A flag of `struct frontend_phys_status`. -/
inductive PhysFlag where
  | inactive
  | active
  | unknown
deriving DecidableEq, Repr

/-- 0, 1, or -1 if not supported or not known. -/
def PhysFlag.toInt : PhysFlag → ℤ
  | .inactive => 0
  | .active => 1
  | .unknown => -1

/-- The member `flags` of `struct frontend_phys_status`. -/
structure PhysFlags where
  resetActive : PhysFlag
  vccPresent : PhysFlag
  clkActive : PhysFlag
  cardPresent : PhysFlag
deriving DecidableEq, Repr

/-- `struct frontend_phys_status`. -/
structure FrontendPhysStatus where
  flags : PhysFlags
  voltageMv : UInt16
  fi : UInt8
  di : UInt8
  wi : UInt8
  waitingTime : UInt8
deriving DecidableEq, Repr

/-- The status that is remembered at the start, which is all zero. -/
def FrontendPhysStatus.zero : FrontendPhysStatus :=
  ⟨⟨.inactive, .inactive, .inactive, .inactive⟩, 0, 0, 0, 0, 0⟩

/-- The flags that the bankd reads. -/
def PhysFlags.toPhysStatus (flags : PhysFlags) : PhysStatus :=
  ⟨flags.resetActive.toInt, flags.vccPresent.toInt⟩

/-- `SlotPhysStatus` with all its members. -/
structure SlotFlags where
  resetActive : Bool
  vccPresent : Option Bool
  clkActive : Option Bool
  cardPresent : Option Bool
deriving DecidableEq, Repr

/-- `ClientSlotStatusInd`. -/
structure ClientSlotStatusInd where
  fromClientSlot : ClientSlotT
  toBankSlot : BankSlotT
  slotPhysStatus : SlotFlags
deriving DecidableEq, Repr

/-- The message as far as the bankd reads it. -/
def ClientSlotStatusInd.toPdu (ind : ClientSlotStatusInd) : RsproPDU :=
  .clientSlotStatusInd ⟨ind.slotPhysStatus.resetActive, ind.slotPhysStatus.vccPresent⟩

/-- A member that is only allocated when the flag is known. -/
def optionalFlag (v : ℤ) : Option Bool := if 0 ≤ v then some (v ≠ 0) else none

/-- `rspro_gen_ClientSlotStatusInd()`. -/
def genClientSlotStatusInd (client : ClientSlotT) (bank : BankSlotT) (rstActive : Bool)
    (vccPresent clkActive cardPresent : ℤ) : ClientSlotStatusInd where
  fromClientSlot := client
  toBankSlot := bank
  slotPhysStatus :=
    { resetActive := rstActive
      vccPresent := optionalFlag vccPresent
      clkActive := optionalFlag clkActive
      cardPresent := optionalFlag cardPresent }

/-- What a status indication did: the messages to the bankd, and the causes that the event script
was called with. -/
structure Report where
  status : FrontendPhysStatus
  sent : List ClientSlotStatusInd
  scripts : List String
deriving DecidableEq, Repr

/-- `struct bankd_client` with the members that matter for status events. -/
structure Monitored where
  client : Client
  eventScript : Option String
  lastStatus : FrontendPhysStatus
  reports : List Report
deriving DecidableEq, Repr

/-- The input is a status indication. -/
def Client.Input.isStatus : Client.Input → Bool
  | .mdmStatusInd _ => true
  | _ => false

/-- What happens to a client: a status indication from the frontend, or something else. -/
inductive Stimulus where
  | status (st : FrontendPhysStatus)
  | other (i : Client.Input) (h : i.isStatus = false)

/-- The event as an input of the client. -/
def Stimulus.toInput : Stimulus → Client.Input
  | .status st => .mdmStatusInd st.flags.toPhysStatus
  | .other i _ => i

namespace Monitored

/-- The causes that `call_script()` calls the script with, if there is one. -/
def callScript (eventScript : Option String) (cause : String) : List String :=
  match eventScript with
  | none => []
  | some _ => [cause]

/-- The message for an indication. -/
def statusInd (m : Monitored) (flags : PhysFlags) : ClientSlotStatusInd :=
  genClientSlotStatusInd m.client.clslot (bankSlot2rspro m.client.bankdSlot)
    (decide (flags.resetActive.toInt ≠ 0)) flags.vccPresent.toInt flags.clkActive.toInt
    flags.cardPresent.toInt

/-- What `server_conn_send_rspro(&bc->bankd_conn, ..)` transmits. -/
def sendBankd (m : Monitored) (ind : ClientSlotStatusInd) : List ClientSlotStatusInd :=
  if m.client.bankdConn.fi.state.inEventMask (.rsproTx ind.toPdu) then [ind] else []

variable (notifies : Stream → Bool)

/-- `osmo_fsm_inst_dispatch(bc->main_fi, MF_E_MDM_STATUS_IND, pstatus)`. -/
def modemStatus (pstatus : FrontendPhysStatus) (m : Monitored) : Monitored :=
  let event := MainEvent.mdmStatusInd pstatus.flags.toPhysStatus
  let client := m.client.dispatch notifies event
  if m.client.mainFi.state.inEventMask event then
    { m with
      client
      lastStatus := pstatus
      reports := m.reports ++
        [{ status := pstatus
           sent := m.sendBankd (m.statusInd pstatus.flags)
           -- `!memcmp()` is true when the flags are equal
           scripts :=
             if m.lastStatus.flags = pstatus.flags then
               callScript m.eventScript "event-modem-status"
             else [] }] }
  else { m with client }

/-- The successor state, if the step can happen. -/
def next (m : Monitored) (l : ℕ × Stimulus) : Option Monitored :=
  match l.2 with
  | .status st =>
      if m.client.now ≤ l.1 then
        some (modemStatus notifies st { m with client := { m.client with now := l.1 } })
      else none
  | .other i _ => (m.client.next notifies ⟨l.1, i⟩).map fun client => { m with client }

/-- The state after `remsim_client_create()`. -/
def Initial (m : Monitored) : Prop :=
  m.client.Initial ∧ m.lastStatus = .zero ∧ m.reports = []

/-- All runs of a client. -/
def lts : Transition.Lts Monitored (ℕ × Stimulus) := Transition.ofFun Initial (next notifies)

end Monitored

/-! ### What the manual promises -/

/-- The truth value of a flag, which may be absent. -/
def PhysFlag.truth : PhysFlag → Option Bool
  | .inactive => some false
  | .active => some true
  | .unknown => none

/-- The flags as truth values; only the reset cannot be absent. -/
def PhysFlags.truth (flags : PhysFlags) : SlotFlags :=
  ⟨decide (flags.resetActive ≠ .inactive), flags.vccPresent.truth, flags.clkActive.truth,
    flags.cardPresent.truth⟩

/-- The status of the last indication that was processed. -/
def lastProcessed (reports : List Report) : FrontendPhysStatus :=
  (reports.getLast?.map Report.status).getD .zero

namespace Monitored

/-- The script is called for an indication when its flags differ from those of the one before. -/
def OnChange (m : Monitored) : Prop :=
  ∀ pre r post, m.reports = pre ++ r :: post →
    (r.scripts = ["event-modem-status"] ↔
      m.eventScript ≠ none ∧ r.status.flags ≠ (lastProcessed pre).flags)

/-- **Status events are reported exactly on change.** -/
structure Reported (m : Monitored) : Prop where
  onChange : m.OnChange
  forwarded : ∀ r ∈ m.reports,
    r.sent.map ClientSlotStatusInd.slotPhysStatus = [r.status.flags.truth]
  last : m.lastStatus = lastProcessed m.reports

end Monitored

/-! ### The messages -/

theorem PhysFlag.optionalFlag_toInt (f : PhysFlag) : optionalFlag f.toInt = f.truth := by
  cases f <;> rfl

theorem PhysFlag.toInt_ne_zero (f : PhysFlag) : f.toInt ≠ 0 ↔ f ≠ .inactive := by
  cases f <;> decide

namespace Monitored

variable {notifies : Stream → Bool} {m : Monitored}

theorem slotPhysStatus_statusInd (m : Monitored) (flags : PhysFlags) :
    (m.statusInd flags).slotPhysStatus = flags.truth := by
  simp only [statusInd, genClientSlotStatusInd, PhysFlags.truth, PhysFlag.optionalFlag_toInt,
    PhysFlag.toInt_ne_zero]

theorem toPdu_statusInd (m : Monitored) (flags : PhysFlags) :
    (m.statusInd flags).toPdu = rsproGenClientSlotStatusInd flags.toPhysStatus := rfl

theorem client_modemStatus (st : FrontendPhysStatus) (m : Monitored) :
    (modemStatus notifies st m).client =
      m.client.dispatch notifies (.mdmStatusInd st.flags.toPhysStatus) := by
  unfold modemStatus
  by_cases h : m.client.mainFi.state.inEventMask (.mdmStatusInd st.flags.toPhysStatus)
  · simp only [h, if_true]
  · simp only [h, if_false, Bool.false_eq_true]

/-- **What a report says was sent is what the client sent.** -/
theorem sent_modemStatus (st : FrontendPhysStatus) (m : Monitored)
    (hm : m.client.mainFi.state = .operational) :
    (modemStatus notifies st m).client.bankdConn.sent = m.client.bankdConn.sent ++
      (m.sendBankd (m.statusInd st.flags)).map ClientSlotStatusInd.toPdu := by
  have hserve : m.client.dispatch notifies (.mdmStatusInd st.flags.toPhysStatus) =
      (Client.linked notifies).dispatch
        (.rsproTx (m.statusInd st.flags).toPdu) m.client := by
    rw [Client.dispatch_eq]
    exact if_pos hm
  rw [client_modemStatus, hserve, Client.linked_lawful.dispatch_eq, sendBankd]
  by_cases hc : m.client.bankdConn.fi.state = .connected
  · have hreact : SrvConn.react notifies m.client.now m.client.bankdConn
        (.rsproTx (m.statusInd st.flags).toPdu) =
        ({ m.client.bankdConn with
            sent := m.client.bankdConn.sent ++ [(m.statusInd st.flags).toPdu] }, []) := if_pos hc
    have hmask : m.client.bankdConn.fi.state.inEventMask
        (.rsproTx (m.statusInd st.flags).toPdu) = true := by rw [hc]; rfl
    rw [if_pos hmask]
    exact congrArg (fun r => ((Client.linked notifies).put r m.client).bankdConn.sent) hreact
  · have hreact : SrvConn.react notifies m.client.now m.client.bankdConn
        (.rsproTx (m.statusInd st.flags).toPdu) = (m.client.bankdConn, []) := if_neg hc
    have hmask : ¬m.client.bankdConn.fi.state.inEventMask
        (.rsproTx (m.statusInd st.flags).toPdu) = true := by
      cases hs : m.client.bankdConn.fi.state with
      | connected => exact absurd hs hc
      | _ => exact Bool.false_ne_true
    rw [if_neg hmask, List.map_nil, List.append_nil]
    exact congrArg (fun r => ((Client.linked notifies).put r m.client).bankdConn.sent) hreact

/-! ### Runs -/

theorem next_client {l : ℕ × Stimulus} {m' : Monitored} (h : next notifies m l = some m') :
    m.client.next notifies ⟨l.1, l.2.toInput⟩ = some m'.client := by
  obtain ⟨t, stim⟩ := l
  cases stim with
  | status st =>
      simp only [next] at h
      split_ifs at h with ht
      cases h
      rw [client_modemStatus]
      exact if_pos ht
  | other i hi =>
      obtain ⟨c, hc, rfl⟩ := Option.map_eq_some_iff.mp h
      exact hc

/-- **A run of the monitored client is a run of the client.** -/
theorem reach_client (h : (lts notifies).Reach Transition.Lts.Any m) :
    (Client.lts notifies).Reach Transition.Lts.Any m.client := by
  apply h.map client
  · intro s hs
    exact hs.1
  · intro s l t _ _ hst
    exact Transition.Lts.Steps.single trivial (next_client hst)

/-- What an indication does in `OPERATIONAL`, where it is the only state to permit it. -/
theorem modemStatus_cases (notifies : Stream → Bool) (st : FrontendPhysStatus) (m : Monitored) :
    (m.client.mainFi.state = .operational ∧ (modemStatus notifies st m).lastStatus = st ∧
      (modemStatus notifies st m).reports = m.reports ++
        [⟨st, m.sendBankd (m.statusInd st.flags),
          if m.lastStatus.flags = st.flags then callScript m.eventScript "event-modem-status"
          else []⟩]) ∨
    (m.client.mainFi.state ≠ .operational ∧
      (modemStatus notifies st m).lastStatus = m.lastStatus ∧
      (modemStatus notifies st m).reports = m.reports) := by
  unfold modemStatus
  cases hs : m.client.mainFi.state with
  | operational => exact .inl ⟨rfl, rfl, rfl⟩
  | _ => exact .inr ⟨MainState.noConfusion, rfl, rfl⟩

theorem eventScript_modemStatus (st : FrontendPhysStatus) (m : Monitored) :
    (modemStatus notifies st m).eventScript = m.eventScript := by
  unfold modemStatus
  by_cases h : m.client.mainFi.state.inEventMask (.mdmStatusInd st.flags.toPhysStatus)
  · simp only [h, if_true]
  · simp only [h, if_false, Bool.false_eq_true]

/-- What the program does at an indication that follows the status `last`: the script is called
when the flags are the same. -/
structure Made (eventScript : Option String) (last : FrontendPhysStatus) (r : Report) : Prop where
  scripts : r.scripts =
    if last.flags = r.status.flags then callScript eventScript "event-modem-status" else []
  sent : r.sent.map ClientSlotStatusInd.slotPhysStatus = [r.status.flags.truth]

/-- The invariant. -/
structure Told (m : Monitored) : Prop where
  last : m.lastStatus = lastProcessed m.reports
  made : ∀ pre r post, m.reports = pre ++ r :: post → Made m.eventScript (lastProcessed pre) r

theorem lastProcessed_append (reports : List Report) (r : Report) :
    lastProcessed (reports ++ [r]) = r.status := by
  rw [lastProcessed, List.getLast?_append, List.getLast?_singleton]
  rfl

theorem Told.modemStatus (h : m.Told)
    (hstep : m.client.mainFi.state = .operational ↔ m.client.bankdConn.fi.state = .connected)
    (st : FrontendPhysStatus) : (modemStatus notifies st m).Told := by
  rcases modemStatus_cases notifies st m with ⟨hop, hlast, hrep⟩ | ⟨-, hlast, hrep⟩
  · have hsent : m.sendBankd (m.statusInd st.flags) = [m.statusInd st.flags] := by
      unfold sendBankd
      rw [hstep.mp hop]
      exact if_pos rfl
    refine ⟨?_, fun pre r post hsplit => ?_⟩
    · rw [hlast, hrep, lastProcessed_append]
    · rw [eventScript_modemStatus]
      rw [hrep, ListLib.append_singleton_eq_iff] at hsplit
      rcases hsplit with ⟨-, rfl, rfl⟩ | ⟨rest, -, hsplit⟩
      · refine ⟨?_, ?_⟩
        · rw [← h.last]
        · rw [hsent, List.map_singleton, slotPhysStatus_statusInd]
      · exact h.made pre r rest hsplit
  · refine ⟨?_, fun pre r post hsplit => ?_⟩
    · rw [hlast, hrep, h.last]
    · rw [eventScript_modemStatus]
      rw [hrep] at hsplit
      exact h.made pre r post hsplit

theorem reach_told (h : (lts notifies).Reach Transition.Lts.Any m) : m.Told := by
  apply h.invariant_of (J := fun m => m.client.InStep)
  · intro m hm
    exact Client.reach_inStep notifies m.client (reach_client hm)
  · rintro m ⟨-, hlast, hrep⟩
    refine ⟨?_, fun pre r post hsplit => ?_⟩
    · rw [hlast, hrep]
      rfl
    · rw [hrep] at hsplit
      exact absurd hsplit.symm (List.append_ne_nil_of_right_ne_nil pre (List.cons_ne_nil _ _))
  · rintro m ⟨t, stim⟩ m' hm - htold - hst
    change next notifies m (t, stim) = some m' at hst
    cases stim with
    | status st =>
        simp only [next] at hst
        split_ifs at hst
        cases hst
        have hnow : Told { m with client := { m.client with now := t } } := ⟨htold.last, htold.made⟩
        exact hnow.modemStatus hm.operational st
    | other i hi =>
        obtain ⟨c, -, rfl⟩ := Option.map_eq_some_iff.mp hst
        exact ⟨htold.last, htold.made⟩

/-- The script is called for an indication when nothing has changed. -/
theorem Made.called_iff {eventScript : Option String} {last : FrontendPhysStatus} {r : Report}
    (h : Made eventScript last r) :
    r.scripts = ["event-modem-status"] ↔ eventScript ≠ none ∧ r.status.flags = last.flags := by
  rw [h.scripts]
  cases eventScript with
  | none =>
      refine iff_of_false (fun heq => ?_) (fun hc => hc.1 rfl)
      rw [callScript, ite_self] at heq
      cases heq
  | some script =>
      by_cases heq : last.flags = r.status.flags
      · rw [if_pos heq]
        exact iff_of_true rfl ⟨Option.some_ne_none _, heq.symm⟩
      · rw [if_neg heq]
        refine iff_of_false (fun hnil => ?_) fun hc => heq hc.2.symm
        cases hnil

/-- **Status events are reported exactly on change in the runs without a script or without an
indication in `OPERATIONAL`**; every indication is forwarded and remembered. -/
theorem reported_iff (h : (lts notifies).Reach Transition.Lts.Any m) :
    (m.Reported ↔ m.eventScript = none ∨ m.reports = []) ∧
    (∀ r ∈ m.reports,
      r.sent.map ClientSlotStatusInd.slotPhysStatus = [r.status.flags.truth]) ∧
    m.lastStatus = lastProcessed m.reports := by
  have htold := reach_told h
  have hsent : ∀ r ∈ m.reports,
      r.sent.map ClientSlotStatusInd.slotPhysStatus = [r.status.flags.truth] := by
    intro r hr
    obtain ⟨pre, post, hsplit⟩ := List.append_of_mem hr
    exact (htold.made pre r post hsplit).sent
  refine ⟨?_, hsent, htold.last⟩
  constructor
  · intro hrep
    by_contra hcond
    push Not at hcond
    obtain ⟨r, post, hsplit⟩ := List.exists_cons_of_ne_nil hcond.2
    have hcalled := (htold.made [] r post hsplit).called_iff
    have hpromised := hrep.onChange [] r post hsplit
    rw [hcalled, and_iff_right hcond.1, and_iff_right hcond.1] at hpromised
    exact iff_not_self hpromised
  · intro hcond
    refine ⟨fun pre r post hsplit => ?_, hsent, htold.last⟩
    have hcalled := (htold.made pre r post hsplit).called_iff
    rcases hcond with hnone | hempty
    · rw [hcalled]
      exact iff_of_false (fun hc => hc.1 hnone) (fun hc => hc.1 hnone)
    · rw [hempty] at hsplit
      exact absurd hsplit.symm (List.append_ne_nil_of_right_ne_nil pre (List.cons_ne_nil _ _))

/-- A client with a script. -/
def startedMonitored : Monitored := ⟨Client.started, some "/bin/script", .zero, []⟩

/-- The modem has switched on the supply voltage and the clock. -/
def powered : FrontendPhysStatus := ⟨⟨.inactive, .active, .active, .unknown⟩, 0, 0, 0, 0, 0⟩

/-- The client becomes operational, then the modem switches on the card, and says so twice. -/
def poweredRun : List (ℕ × Stimulus) :=
  [(10, .other .srvcConnected rfl), (20, .other (.srvcConfigBank ⟨1, 2⟩ 0x0a000001 9999) rfl),
    (21, .other .bankdExpiry rfl), (30, .other .bankdUp rfl),
    (40, .other (.bankdRx (.connectClientRes .remsimBankd .ok)) rfl), (50, .status powered),
    (60, .status powered)]

theorem reach_poweredRun : (lts fun _ => true).Reach Transition.Lts.Any
    (Transition.after (next fun _ => true) startedMonitored poweredRun) :=
  Transition.reach_after ⟨⟨rfl, rfl, rfl, rfl⟩, rfl, rfl⟩ (by decide +kernel) (by decide +kernel)

theorem poweredRun_reported :
    ¬(Transition.after (next fun _ => true) startedMonitored poweredRun).Reported := by
  rw [(reported_iff reach_poweredRun).1]
  decide +kernel

/-- The script is not called when the modem switches on the card. -/
theorem powered_missed :
    ¬∀ m, (lts fun _ => true).Reach Transition.Lts.Any m → m.Reported := by
  intro h
  have hreports : (Transition.after (next fun _ => true) startedMonitored poweredRun).reports =
      [] ++ ⟨powered, [⟨⟨3, 0⟩, ⟨1, 2⟩, powered.flags.truth⟩], []⟩ ::
        [⟨powered, [⟨⟨3, 0⟩, ⟨1, 2⟩, powered.flags.truth⟩], ["event-modem-status"]⟩] := by
    decide +kernel
  have hchange := ((h _ reach_poweredRun).onChange _ _ _ hreports).mpr (by decide +kernel)
  cases hchange

end Monitored
end Remsim
