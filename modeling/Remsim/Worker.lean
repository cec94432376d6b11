import Remsim.Bankd

/-! # The worker threads of the bankd (`bankd_main.c`, `bankd_pcsc.c`)

A worker serves one client connection after the other.  Its program is broken into steps: `Pc` says
where the thread is, and `Worker.step` is what it does from there.  Everything that the kernel, the
PC/SC library and the regular expressions answer is an input of the step (`Act`, `Io`, `Regex`).  An
assertion of the code that fails ends the process, so such a step has no successor.

A signal is delivered between two steps.  `worker_try_slotmap()` and `worker_open_card()` are broken
up at every change of a field that the handlers or the other threads look at.  Single steps are: a
lookup in the slot maps, which takes their lock; the assertion of `worker_open_card()` together with
the lookup of the reader name; the call of `ops->open_card()`; what follows in the callers of the
two; the handling of a message by `worker_handle_rspro()`, so the checks of a TPDU, its transceive
and the answer; and the clean-up after a connection.  A signal that arrives within one of these is
delivered before or after it; `SplitTpdu` takes the handling of a TPDU apart, and `Assertions` the
assertions.

The mapping found by a lookup is read later, when the main thread may already have freed it; the
model keeps the value it had.  IPA messages that are not RSPRO are answered or ignored and do not
appear.

The fields `ident` and `sent` of a worker and the serial numbers of signals are not in the code:
they record which client slot was announced on the current connection, the PDUs written to it, and
which PDU of the server a signal goes back to.

`step_move` says once what a step can do to the fields that decide which card is used for whom; the
invariants of the later modules are proved on these moves. -/

namespace Remsim

/-- `enum bankd_worker_state`. -/
inductive WorkerState where
  | init
  | accepting
  | connWaitId
  | connClient
  | connClientWaitMap
  | connClientMapped
  | connClientMappedCard
  | connClientUnmapped
deriving DecidableEq, Repr

/-- `state >= BW_ST_CONN_CLIENT_MAPPED`. -/
def WorkerState.geMapped : WorkerState → Bool
  | .connClientMapped => true
  | .connClientMappedCard => true
  | .connClientUnmapped => true
  | _ => false

/-- The two states in which a client has a mapping. -/
def WorkerState.mapped : WorkerState → Bool
  | .connClientMapped => true
  | .connClientMappedCard => true
  | _ => false

theorem WorkerState.geMapped_of_mapped {s : WorkerState} (h : s.mapped = true) :
    s.geMapped = true := by
  cases s <;> first | rfl | cases h

/-- The signals of the main thread; the number is that of the PDU they go back to. -/
inductive Signal where
  | mapDel (serial : ℕ)
  | mapAdd
deriving DecidableEq, Repr

/-- The callers of `worker_try_slotmap()` and `worker_open_card()`. -/
inductive Caller where
  | connect
  | interrupt
  | timeout
deriving DecidableEq, Repr

/-- Where a worker thread is. -/
inductive Pc where
  /-- `worker_main()` before its loop. -/
  | boot
  /-- Blocked in `accept()`. -/
  | accept
  /-- Blocked in `select()`. -/
  | wait
  /-- In `blocking_ipa_read()`. -/
  | read
  /-- `worker_try_slotmap()` entered. -/
  | lookup (k : Caller)
  /-- A mapping was found, `worker->slot` not yet assigned. -/
  | found (bank : BankSlot) (k : Caller)
  /-- `worker->slot` assigned, the state not yet changed. -/
  | assigned (k : Caller)
  /-- `worker_open_card()` entered. -/
  | openCard (k : Caller)
  /-- `ops->open_card()` called. -/
  | driver (k : Caller)
  /-- `ops->open_card()` returned success. -/
  | opened (k : Caller)
  /-- Back in the caller. -/
  | returned (k : Caller) (ok : Bool)
  /-- Out of the transceive loop. -/
  | recycle
deriving DecidableEq, Repr

/-- `struct bankd_worker` and the place of its thread. -/
structure Worker where
  pc : Pc
  state : WorkerState
  timeout : ℕ
  slot : BankSlot
  clslot : ClientSlot
  /-- `reader.name`, a regular expression. -/
  readerName : Option String
  hContext : Bool
  /-- The reader that `reader.pcsc.hCard` is connected to. -/
  hCard : Option String
  atr : List UInt8
  lastVccPresent : Bool
  lastResetActive : Bool
  ident : Option ClientSlot
  sent : List RsproPDU
deriving DecidableEq, Repr

/-- POSIX regular expressions: `regcomp()` accepts, and `regexec()` finds a match. -/
structure Regex where
  comp : String → Bool
  exec : String → String → Bool

/-- What PC/SC and the client socket answer during a step. -/
structure Io where
  /-- `SCardEstablishContext()`. -/
  establish : Bool
  /-- `SCardListReaders()`. -/
  readers : Option (List String)
  /-- `SCardConnect()`. -/
  connect : Bool
  /-- `SCardStatus()`: the ATR. -/
  status : Option (List UInt8)
  /-- `SCardReconnect()`. -/
  reconnect : Bool
  /-- `SCardTransmit()`: the response. -/
  transmit : Option (List UInt8)
  /-- The write of a response, and of a `setAtrReq` after it. -/
  write : Bool
  writeAtr : Bool
deriving DecidableEq, Repr

/-- How `select()` returns. -/
inductive SelectResult where
  | eintr
  | timeout
  | readable
  | error
deriving DecidableEq, Repr

/-- The inputs of a worker step. -/
inductive Act where
  | boot
  | accept
  | select (r : SelectResult)
  /-- A message was read and decoded; `none` when that failed. -/
  | recv (pdu : Option RsproPDU) (io : Io)
  | cont (io : Io)
deriving DecidableEq, Repr

/-- What a worker reads of the rest of the process: the reader names, the slot maps, and the
outcome of a TPDU it accepts. -/
structure View where
  regex : Regex
  slotName : BankSlot → Option String
  byClient : ClientSlot → Option BankSlot
  tpdu : ClientSlotT → BankSlotT → List UInt8 → Io → Option (List UInt8)

namespace Worker

/-- A worker as `bankd_create_worker()` leaves it. -/
def fresh : Worker where
  pc := .boot
  state := .init
  timeout := 0
  slot := ⟨0, 0⟩
  clslot := ⟨0, 0⟩
  readerName := none
  hContext := false
  hCard := none
  atr := []
  lastVccPresent := true
  lastResetActive := false
  ident := none
  sent := []

variable (w : Worker)

/-- `worker_set_state_timeout()`; `worker_set_state()` is the case of no timeout. -/
def setState (st : WorkerState) (timeout : ℕ) : Worker := { w with state := st, timeout := timeout }

/-- The thread goes on elsewhere. -/
def goto (pc : Pc) : Worker := { w with pc := pc }

/-- `handle_sig_mapdel()`. -/
def handleSigMapdel : Worker :=
  if w.state.geMapped then
    { w.setState .connClientUnmapped 0 with slot := ⟨0xffff, 0xffff⟩ }
  else w

/-- The handler of a signal. -/
def handleSig : Signal → Worker
  | .mapDel _ => w.handleSigMapdel
  | .mapAdd => w

/-- `worker_send_rspro()`. -/
def sendRspro (pdu : RsproPDU) (ok : Bool) : Worker :=
  if ok then { w with sent := w.sent ++ [pdu] } else w

/-- `worker_send_atr()`. -/
def sendAtr (ok : Bool) : Worker := w.sendRspro (.setAtrReq (clientSlot2rspro w.clslot) w.atr) ok

/-- The end of `worker_transceive_loop()` with success, and the check of the loop around it. -/
def again : Worker :=
  if w.state = .connClientUnmapped then w.goto .recycle else w.goto .wait

/-- `pcsc_get_atr()`. -/
def pcscGetAtr (io : Io) : Worker × Bool :=
  match io.status with
  | none => (w, false)
  | some atr => ({ w with atr := atr }, true)

/-- `pcsc_connect_slot_regex()`: the first reader that matches is connected. -/
def pcscConnectSlotRegex (re : Regex) (name : String) (io : Io) : Worker × Bool :=
  if re.comp name then
    match io.readers with
    | none => (w, false)
    | some rs =>
        match rs.find? (re.exec name) with
        | none => (w, false)
        | some r => if io.connect then ({ w with hCard := some r }, true) else (w, false)
  else (w, false)

/-- `pcsc_open_card()`. -/
def pcscOpenCard (re : Regex) (name : String) (io : Io) : Worker × Bool :=
  if w.hContext || io.establish then
    let w := { w with hContext := true }
    if w.hCard.isSome then w.pcscGetAtr io
    else
      match w.pcscConnectSlotRegex re name io with
      | (w, false) => (w, false)
      | (w, true) => w.pcscGetAtr io
  else (w, false)

/-- `pcsc_reset_card()`. -/
def pcscResetCard (io : Io) : Worker := if io.reconnect then (w.pcscGetAtr io).1 else w

/-- `worker_handle_connectClientReq()` up to the call of `worker_try_slotmap()`. -/
def handleConnectClientReq (clientSlot : Option ClientSlotT) (io : Io) : Worker :=
  let refuse := (w.sendRspro (.connectClientRes .remsimBankd .illegalClientId) io.write).goto
    .recycle
  if w.state ≠ .connWaitId then refuse else
    match clientSlot with
    | none => refuse
    | some cs =>
        { (w.setState .connClient 0).goto (.lookup .connect) with
          clslot := rspro2clientSlot cs
          ident := some (rspro2clientSlot cs) }

/-- `worker_handle_tpduModemToCard()`, given the outcome of the transceive.  The result of the
write is not looked at. -/
def handleTpduModemToCard (src : ClientSlotT) (dst : BankSlotT) (io : Io)
    (resp : Option (List UInt8)) : Worker :=
  match resp with
  | none => w.goto .recycle
  | some data => (w.sendRspro (.tpduCardToModem dst src data) io.write).again

/-- The resets that `worker_handle_clientSlotStatusInd()` performs: `true` is a cold reset. -/
def resets (st : SlotPhysStatus) : Option Bool :=
  if st.vccPresent = some false then (if w.lastVccPresent then some true else none)
  else if st.resetActive then (if w.lastResetActive then none else some false)
  else none

/-- `worker_handle_clientSlotStatusInd()`. -/
def handleClientSlotStatusInd (st : SlotPhysStatus) (io : Io) : Worker :=
  let w' := if (w.resets st).isSome then w.pcscResetCard io else w
  { w' with
    lastVccPresent := st.vccPresent.getD w.lastVccPresent
    lastResetActive := st.resetActive }

/-- `worker_handle_rspro()`. -/
def handleRspro (v : View) (io : Io) : RsproPDU → Worker
  | .connectClientReq _ clientSlot => w.handleConnectClientReq clientSlot io
  | .tpduModemToCard src dst data => w.handleTpduModemToCard src dst io (v.tpdu src dst data io)
  | .clientSlotStatusInd st => (w.handleClientSlotStatusInd st io).again
  | .setAtrRes _ => w.again
  | _ => w.goto .recycle

/-- What follows `worker_try_slotmap()` and `worker_open_card()` in their callers. -/
def afterTry (ok : Bool) (io : Io) : Caller → Worker
  | .connect =>
      let w := w.sendRspro
        (.connectClientRes .remsimBankd (if ok then .ok else .cardNotPresent)) io.write
      if io.write = false then w.goto .recycle
      else if ok then
        if io.writeAtr = false then w.goto .recycle else (w.sendAtr true).again
      else w.again
  | .interrupt => w.goto .wait
  | .timeout => (if ok then w.sendAtr io.writeAtr else w).again

/-- The cleanup in `worker_main()`, up to the next `accept()`. -/
def cleanup : Worker :=
  { w.setState .accepting 0 with
    pc := .accept
    clslot := ⟨0, 0⟩
    readerName := none
    hContext := false
    hCard := none
    atr := []
    ident := none }

/-- One step of a worker. -/
def step (v : View) : Act → Option Worker
  | .boot =>
      if w.pc = .boot then
        some { (w.setState .accepting 0).goto .accept with slot := ⟨0xffff, 0xffff⟩ }
      else none
  | .accept =>
      if w.pc = .accept then
        some { (w.setState .connWaitId 0).goto .wait with ident := none, sent := [] }
      else none
  | .select r =>
      if w.pc = .wait then
        match r with
        | .eintr =>
            some (if w.state = .connClientUnmapped then w.goto .recycle
              else w.goto (.lookup .interrupt))
        | .timeout =>
            if w.timeout = 0 then none
            else
              match w.state with
              | .connClientWaitMap => some (w.goto (.lookup .timeout))
              | .connClientMapped => some (w.goto (.openCard .timeout))
              | _ => none
        | .readable => some (w.goto .read)
        | .error => some (w.goto .recycle)
      else none
  | .recv pdu io =>
      if w.pc = .read then
        match pdu with
        | none => some (w.goto .recycle)
        | some pdu => some (w.handleRspro v io pdu)
      else none
  | .cont io =>
      match w.pc with
      | .lookup k =>
          match v.byClient w.clslot with
          | none => some ((w.setState .connClientWaitMap 10).goto (.returned k false))
          | some bs => some (w.goto (.found bs k))
      | .found bs k => some { w.goto (.assigned k) with slot := bs }
      | .assigned k => some ((w.setState .connClientMapped 10).goto (.openCard k))
      | .openCard k =>
          if w.state = .connClientMapped then
            match w.readerName <|> v.slotName w.slot with
            | none => some (w.goto (.returned k false))
            | some name => some { w.goto (.driver k) with readerName := some name }
          else none
      | .driver k =>
          match w.readerName with
          | none => none
          | some name =>
              match w.pcscOpenCard v.regex name io with
              | (w, true) => some (w.goto (.opened k))
              | (w, false) => some (w.goto (.returned k false))
      | .opened k => some ((w.setState .connClientMappedCard 0).goto (.returned k true))
      | .returned k ok => some (w.afterTry ok io k)
      | .recycle => some w.cleanup
      | _ => none

/-! ### What a step can do -/

/-- The fields of a worker that decide which card it uses for whom. -/
structure Core where
  state : WorkerState
  slot : BankSlot
  clslot : ClientSlot
  readerName : Option String
  hCard : Option String
  ident : Option ClientSlot

/-- The core of a worker. -/
def core : Core := ⟨w.state, w.slot, w.clslot, w.readerName, w.hCard, w.ident⟩

end Worker

/-- The thread is between the lookup of a mapping and the end of `worker_open_card()`. -/
def Pc.opening : Pc → Prop
  | .found _ _ => True
  | .assigned _ => True
  | .openCard _ => True
  | .driver _ => True
  | .opened _ => True
  | _ => False

/-- The thread is elsewhere in the transceive loop. -/
def Pc.inLoop : Pc → Prop
  | .wait => True
  | .read => True
  | .lookup _ => True
  | .returned _ _ => True
  | .recycle => True
  | _ => False

theorem Pc.inLoop.not_opening {pc : Pc} (h : pc.inLoop) : ¬pc.opening := by
  cases pc with
  | wait => exact id
  | read => exact id
  | lookup k => exact id
  | returned k ok => exact id
  | recycle => exact id
  | _ => exact h.elim

namespace Worker

/-- What a step of a worker can do to its place and its core. -/
inductive Move (v : View) (w : Worker) : Pc → Core → Prop
  | boot : w.pc = .boot →
      Move v w .accept { w.core with state := .accepting, slot := ⟨0xffff, 0xffff⟩ }
  | accept : w.pc = .accept → Move v w .wait { w.core with state := .connWaitId, ident := none }
  | quiet {pc : Pc} : pc.inLoop → Move v w pc w.core
  | retry (k : Caller) : w.state = .connClientMapped → Move v w (.openCard k) w.core
  | identify (cs : ClientSlot) : w.state = .connWaitId →
      Move v w (.lookup .connect)
        { w.core with state := .connClient, clslot := cs, ident := some cs }
  | missing (k : Caller) : v.byClient w.clslot = none →
      Move v w (.returned k false) { w.core with state := .connClientWaitMap }
  | found {bs : BankSlot} {k : Caller} : w.pc = .lookup k → v.byClient w.clslot = some bs →
      Move v w (.found bs k) w.core
  | assign {bs : BankSlot} {k : Caller} : w.pc = .found bs k →
      Move v w (.assigned k) { w.core with slot := bs }
  | map {k : Caller} : w.pc = .assigned k →
      Move v w (.openCard k) { w.core with state := .connClientMapped }
  | name {k : Caller} {n : String} : w.pc = .openCard k → w.state = .connClientMapped →
      (w.readerName <|> v.slotName w.slot) = some n →
      Move v w (.driver k) { w.core with readerName := some n }
  | driver {k : Caller} {n : String} {h : Option String} {pc : Pc} : w.pc = .driver k →
      w.readerName = some n →
      h = w.hCard ∨ (w.hCard = none ∧ ∃ r, h = some r ∧ v.regex.exec n r = true) →
      (pc = .opened k ∧ h.isSome = true) ∨ pc = .returned k false →
      Move v w pc { w.core with hCard := h }
  | card {k : Caller} : w.pc = .opened k →
      Move v w (.returned k true) { w.core with state := .connClientMappedCard }
  | cleanup : w.pc = .recycle →
      Move v w .accept ⟨.accepting, w.slot, ⟨0, 0⟩, none, none, none⟩

variable {w w' : Worker} {v : View}

@[simp] theorem core_goto (pc : Pc) : (w.goto pc).core = w.core := rfl

@[simp] theorem core_sendRspro (pdu : RsproPDU) (ok : Bool) :
    (w.sendRspro pdu ok).core = w.core := by
  unfold sendRspro
  split_ifs <;> rfl

@[simp] theorem core_sendAtr (ok : Bool) : (w.sendAtr ok).core = w.core := core_sendRspro _ _

@[simp] theorem core_again : w.again.core = w.core := by
  unfold again
  split_ifs <;> rfl

theorem inLoop_again : w.again.pc.inLoop := by
  unfold again
  split_ifs <;> trivial

@[simp] theorem core_pcscGetAtr (io : Io) : (w.pcscGetAtr io).1.core = w.core := by
  unfold pcscGetAtr
  split <;> rfl

@[simp] theorem core_pcscResetCard (io : Io) : (w.pcscResetCard io).core = w.core := by
  unfold pcscResetCard
  split_ifs
  · exact core_pcscGetAtr io
  · rfl

theorem core_handleClientSlotStatusInd (st : SlotPhysStatus) (io : Io) :
    (w.handleClientSlotStatusInd st io).core = w.core := by
  show (if _ then _ else w : Worker).core = w.core
  split_ifs
  · exact core_pcscResetCard io
  · rfl

theorem pcscConnectSlotRegex_spec (re : Regex) (n : String) (io : Io) :
    ((w.pcscConnectSlotRegex re n io).2 = false ∧ (w.pcscConnectSlotRegex re n io).1.core = w.core) ∨
      ∃ r, (w.pcscConnectSlotRegex re n io).1.core = { w.core with hCard := some r } ∧
        re.exec n r = true := by
  unfold pcscConnectSlotRegex
  split
  · cases io.readers with
    | none => exact .inl ⟨rfl, rfl⟩
    | some rs =>
        simp only
        cases hf : rs.find? (re.exec n) with
        | none => exact .inl ⟨rfl, rfl⟩
        | some r =>
            simp only
            split
            · exact .inr ⟨r, rfl, List.find?_some hf⟩
            · exact .inl ⟨rfl, rfl⟩
  · exact .inl ⟨rfl, rfl⟩

/-- The card handle after the driver's open function. -/
theorem pcscOpenCard_spec (re : Regex) (n : String) (io : Io) :
    ∃ h, (w.pcscOpenCard re n io).1.core = { w.core with hCard := h } ∧
      (h = w.hCard ∨ (w.hCard = none ∧ ∃ r, h = some r ∧ re.exec n r = true)) ∧
      ((w.pcscOpenCard re n io).2 = true → h.isSome = true) := by
  unfold pcscOpenCard
  split
  · simp only
    split
    · rename_i hc
      exact ⟨w.hCard, core_pcscGetAtr io, .inl rfl, fun _ => hc⟩
    · rename_i hc
      have hnone : w.hCard = none := by simpa using hc
      have hspec := pcscConnectSlotRegex_spec (w := { w with hContext := true }) re n io
      split
      · rename_i u hu
        rw [hu] at hspec
        rcases hspec with ⟨_, hcore⟩ | ⟨r, hcore, hr⟩
        · exact ⟨w.hCard, hcore, .inl rfl, by simp⟩
        · exact ⟨some r, hcore, .inr ⟨hnone, r, rfl, hr⟩, by simp⟩
      · rename_i u hu
        rw [hu] at hspec
        rcases hspec with ⟨hf, _⟩ | ⟨r, hcore, hr⟩
        · cases hf
        · exact ⟨some r, (core_pcscGetAtr io).trans hcore, .inr ⟨hnone, r, rfl, hr⟩, fun _ => rfl⟩
  · exact ⟨w.hCard, rfl, .inl rfl, by simp⟩

theorem handleRspro_move (io : Io) (pdu : RsproPDU) :
    Move v w (w.handleRspro v io pdu).pc (w.handleRspro v io pdu).core := by
  have quiet : ∀ {u : Worker}, u.pc.inLoop → u.core = w.core → Move v w u.pc u.core := by
    intro u ho hc
    rw [hc]
    exact .quiet ho
  cases pdu with
  | connectClientReq identity clientSlot =>
      show Move v w (w.handleConnectClientReq clientSlot io).pc _
      simp only [handleRspro, handleConnectClientReq]
      split_ifs with hst
      · exact quiet trivial (core_sendRspro _ _)
      · have hst : w.state = .connWaitId := by simpa using hst
        cases clientSlot with
        | none => exact quiet trivial (core_sendRspro _ _)
        | some cs => exact .identify (rspro2clientSlot cs) hst
  | tpduModemToCard src dst data =>
      simp only [handleRspro, handleTpduModemToCard]
      cases v.tpdu src dst data io with
      | none => exact quiet trivial rfl
      | some resp => exact quiet inLoop_again (core_again.trans (core_sendRspro _ _))
  | clientSlotStatusInd st =>
      exact quiet inLoop_again (core_again.trans (core_handleClientSlotStatusInd st io))
  | setAtrRes r => exact quiet inLoop_again core_again
  | _ => exact quiet trivial rfl

theorem afterTry_move (ok : Bool) (io : Io) (k : Caller) :
    Move v w (w.afterTry ok io k).pc (w.afterTry ok io k).core := by
  have hpc : (w.afterTry ok io k).pc.inLoop ∧ (w.afterTry ok io k).core = w.core := by
    cases k with
    | connect =>
        unfold afterTry
        generalize hr : (if ok then ResultCode.ok else .cardNotPresent) = r
        simp only
        split_ifs
        · exact ⟨trivial, core_sendRspro _ _⟩
        · exact ⟨trivial, core_sendRspro _ _⟩
        · exact ⟨inLoop_again, core_again.trans ((core_sendAtr _).trans (core_sendRspro _ _))⟩
        · exact ⟨inLoop_again, core_again.trans (core_sendRspro _ _)⟩
    | interrupt => exact ⟨trivial, rfl⟩
    | timeout =>
        simp only [afterTry]
        refine ⟨inLoop_again, core_again.trans ?_⟩
        split_ifs
        · exact core_sendAtr _
        · rfl
  rw [hpc.2]
  exact .quiet hpc.1

/-- The return of `ops->open_card()`. -/
theorem driver_move {k : Caller} {n : String} {io : Io} {u : Worker} {ok : Bool} {pc : Pc}
    (hpc : w.pc = .driver k) (hn : w.readerName = some n)
    (hu : w.pcscOpenCard v.regex n io = (u, ok))
    (hok : (pc = .opened k ∧ ok = true) ∨ pc = .returned k false) :
    Move v w (u.goto pc).pc (u.goto pc).core := by
  obtain ⟨hc, hcore, hor, hsome⟩ := w.pcscOpenCard_spec v.regex n io
  rw [hu] at hcore hsome
  rw [core_goto, hcore]
  exact .driver hpc hn hor (hok.imp_left fun h => ⟨h.1, hsome h.2⟩)

theorem cont_move {io : Io} (h : w.step v (.cont io) = some w') : Move v w w'.pc w'.core := by
  simp only [step] at h
  split at h
  · rename_i k hpc
    split at h
    · rename_i hb
      obtain rfl := Option.some.inj h
      exact .missing k hb
    · rename_i bs hb
      obtain rfl := Option.some.inj h
      exact .found hpc hb
  · rename_i bs k hpc
    obtain rfl := Option.some.inj h
    exact .assign hpc
  · rename_i k hpc
    obtain rfl := Option.some.inj h
    exact .map hpc
  · rename_i k hpc
    simp only [Option.ite_none_right_eq_some] at h
    obtain ⟨hst, h⟩ := h
    split at h
    · obtain rfl := Option.some.inj h
      exact .quiet trivial
    · rename_i n hn
      obtain rfl := Option.some.inj h
      exact .name hpc hst hn
  · rename_i k hpc
    split at h
    · cases h
    · rename_i n hn
      split at h
      · rename_i u hu
        obtain rfl := Option.some.inj h
        exact driver_move hpc hn hu (.inl ⟨rfl, rfl⟩)
      · rename_i u hu
        obtain rfl := Option.some.inj h
        exact driver_move hpc hn hu (.inr rfl)
  · rename_i k hpc
    obtain rfl := Option.some.inj h
    exact .card hpc
  · rename_i k ok hpc
    obtain rfl := Option.some.inj h
    exact afterTry_move ok io k
  · rename_i hpc
    obtain rfl := Option.some.inj h
    exact .cleanup hpc
  · cases h

/-- **Every step of a worker is one of the moves.** -/
theorem step_move {act : Act} (h : w.step v act = some w') : Move v w w'.pc w'.core := by
  cases act with
  | boot =>
      simp only [step, Option.ite_none_right_eq_some, Option.some.injEq] at h
      obtain ⟨hpc, rfl⟩ := h
      exact .boot hpc
  | accept =>
      simp only [step, Option.ite_none_right_eq_some, Option.some.injEq] at h
      obtain ⟨hpc, rfl⟩ := h
      exact .accept hpc
  | select r =>
      simp only [step, Option.ite_none_right_eq_some] at h
      obtain ⟨hpc, h⟩ := h
      cases r with
      | eintr =>
          simp only [Option.some.injEq] at h
          subst h
          split_ifs
          · exact .quiet trivial
          · exact .quiet trivial
      | timeout =>
          simp only [Option.ite_none_left_eq_some] at h
          obtain ⟨_, h⟩ := h
          split at h
          · obtain rfl := Option.some.inj h
            exact .quiet trivial
          · rename_i hst
            obtain rfl := Option.some.inj h
            exact .retry .timeout hst
          · cases h
      | readable =>
          obtain rfl := Option.some.inj h
          exact .quiet trivial
      | error =>
          obtain rfl := Option.some.inj h
          exact .quiet trivial
  | recv pdu io =>
      simp only [step, Option.ite_none_right_eq_some] at h
      obtain ⟨hpc, h⟩ := h
      cases pdu with
      | none =>
          obtain rfl := Option.some.inj h
          exact .quiet trivial
      | some pdu =>
          obtain rfl := Option.some.inj h
          exact handleRspro_move io pdu
  | cont io => exact cont_move h

end Worker

end Remsim
