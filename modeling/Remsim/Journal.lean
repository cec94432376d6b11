import Remsim.Process
import Remsim.Resets

/-! # What a worker thread does over its life

The runs of one worker thread, from its start through all the client connections it serves, with a
journal of what can be observed of it.  In every step the rest of the process may be different.
`next_emits` says once what a step can add to the journal, and `reach_journal` that the workers of
the process are such threads. -/

namespace Remsim

/-- What can be observed of a worker thread. -/
inductive Evt where
  /-- A connection was accepted. -/
  | accepted
  /-- `select()` was called, while the worker has a card or not. -/
  | waits (card : Bool)
  /-- `CONN_CLIENT_MAPPED_CARD` was entered with this ATR. -/
  | opened (atr : List UInt8)
  /-- A PDU was written to the connection. -/
  | sent (pdu : RsproPDU)
  /-- A `clientSlotStatusInd` was handled, with a cold reset (`true`), a warm one, or none. -/
  | status (st : SlotPhysStatus) (reset : Option Bool)
deriving DecidableEq, Repr

/-- The thread waits for a connection, or for nothing but itself on its way there. -/
def Pc.unconnected : Pc → Bool
  | .boot => true
  | .accept => true
  | .recycle => true
  | _ => false

/-- Back from `worker_open_card()` with a card. -/
def Pc.gotCard : Pc → Bool
  | .returned _ true => true
  | _ => false

namespace Worker

/-- The PDUs written in a step. -/
def written (w w' : Worker) : List RsproPDU := w'.sent.drop w.sent.length

/-- The call of `select()` that a step leads to. -/
def waitEvents (w' : Worker) : List Evt :=
  if w'.pc = .wait then [.waits (decide (w'.state = .connClientMappedCard))] else []

/-- What the handling of a PDU adds to the journal besides the PDUs written. -/
def statusEvents (w : Worker) : Act → List Evt
  | .recv (some (.clientSlotStatusInd st)) _ => [.status st (w.resets st)]
  | _ => []

/-- What a step adds to the journal. -/
def emits (w : Worker) (act : Act) (w' : Worker) : List Evt :=
  match act, w.pc with
  | .accept, _ => .accepted :: w'.waitEvents
  | .cont _, .opened _ => [.opened w.atr]
  | act, _ => w.statusEvents act ++ (w.written w').map .sent ++ w'.waitEvents

end Worker

/-- A worker thread and its journal. -/
structure Journal where
  worker : Worker
  log : List Evt

namespace Journal

/-- A step, with what is read of the rest of the process, or the handling of a signal. -/
inductive Label where
  | run (v : View) (act : Act)
  | signal (sig : Signal)

/-- The successor state, if the step can happen. -/
def next (t : Journal) : Label → Option Journal
  | .run v act => (t.worker.step v act).map fun w' => ⟨w', t.log ++ t.worker.emits act w'⟩
  | .signal sig =>
      if t.worker.pc = .boot then none else some ⟨t.worker.handleSig sig, t.log⟩

/-- A new thread. -/
def start : Journal := ⟨Worker.fresh, []⟩

/-- All runs of a worker thread. -/
def lts : Transition.Lts Journal Label := Transition.ofFun (· = start) next

end Journal

/-- The report that a step handles. -/
def Act.report : Act → Option SlotPhysStatus
  | .recv (some pdu) _ => pdu.status
  | _ => none

namespace Worker

variable {w w' : Worker} {v : View}

/-! ### The places of the thread -/

theorem gotCard_again : w.again.pc.gotCard = false := by
  unfold again
  split_ifs <;> rfl

theorem gotCard_handleRspro (io : Io) (pdu : RsproPDU) :
    (w.handleRspro v io pdu).pc.gotCard = false := by
  cases pdu with
  | connectClientReq identity clientSlot =>
      simp only [handleRspro, handleConnectClientReq]
      split_ifs
      · rfl
      · cases clientSlot with
        | none => rfl
        | some cs => rfl
  | tpduModemToCard src dst data =>
      simp only [handleRspro, handleTpduModemToCard]
      cases v.tpdu src dst data io with
      | none => rfl
      | some resp => exact gotCard_again
  | clientSlotStatusInd st => exact gotCard_again
  | setAtrRes r => exact gotCard_again
  | _ => rfl

theorem gotCard_afterTry (ok : Bool) (io : Io) (k : Caller) :
    (w.afterTry ok io k).pc.gotCard = false := by
  cases k with
  | connect =>
      unfold afterTry
      generalize (if ok then ResultCode.ok else .cardNotPresent) = r
      simp only
      split_ifs
      · rfl
      · rfl
      · exact gotCard_again
      · exact gotCard_again
  | interrupt => rfl
  | timeout => exact gotCard_again

/-- What a step does: a received PDU is handled, the driver is asked for the card, the card is
there, `worker_try_slotmap()` returns, or none of this; then no report is handled, the lines keep
their levels, and no card is returned. -/
theorem step_shape {act : Act} (h : w.step v act = some w') :
    (∃ pdu io, act = .recv (some pdu) io ∧ w' = w.handleRspro v io pdu) ∨
      (∃ k io name ok u, w.pc = .driver k ∧ act = .cont io ∧
        w.pcscOpenCard v.regex name io = (u, ok) ∧
        w' = u.goto (if ok then .opened k else .returned k false)) ∨
      (∃ k ok io, w.pc = .returned k ok ∧ act = .cont io ∧ w' = w.afterTry ok io k) ∨
      (∃ k io, w.pc = .opened k ∧ act = .cont io ∧
        w' = (w.setState .connClientMappedCard 0).goto (.returned k true)) ∨
      (act.report = none ∧ w'.lines = w.lines ∧ w'.pc.gotCard = false) := by
  have other : ∀ {u : Worker}, act.report = none → some u = some w' → u.lines = w.lines →
      u.pc.gotCard = false → act.report = none ∧ w'.lines = w.lines ∧ w'.pc.gotCard = false :=
    fun hr hu hl hp => Option.some.inj hu ▸ ⟨hr, hl, hp⟩
  cases act with
  | boot =>
      simp only [step, Option.ite_none_right_eq_some] at h
      exact .inr (.inr (.inr (.inr (other rfl h.2 rfl rfl))))
  | accept =>
      simp only [step, Option.ite_none_right_eq_some] at h
      exact .inr (.inr (.inr (.inr (other rfl h.2 rfl rfl))))
  | select r =>
      simp only [step, Option.ite_none_right_eq_some] at h
      obtain ⟨_, h⟩ := h
      refine .inr (.inr (.inr (.inr ?_)))
      cases r with
      | eintr => split_ifs at h <;> exact other rfl h rfl rfl
      | timeout =>
          simp only [Option.ite_none_left_eq_some] at h
          obtain ⟨_, h⟩ := h
          split at h
          · exact other rfl h rfl rfl
          · exact other rfl h rfl rfl
          · cases h
      | readable => exact other rfl h rfl rfl
      | error => exact other rfl h rfl rfl
  | recv pdu io =>
      simp only [step, Option.ite_none_right_eq_some] at h
      obtain ⟨_, h⟩ := h
      cases pdu with
      | none => exact .inr (.inr (.inr (.inr (other rfl h rfl rfl))))
      | some pdu => exact .inl ⟨pdu, io, rfl, (Option.some.inj h).symm⟩
  | cont io =>
      simp only [step] at h
      split at h
      · refine .inr (.inr (.inr (.inr ?_)))
        split at h <;> exact other rfl h rfl rfl
      · exact .inr (.inr (.inr (.inr (other rfl h rfl rfl))))
      · exact .inr (.inr (.inr (.inr (other rfl h rfl rfl))))
      · simp only [Option.ite_none_right_eq_some] at h
        obtain ⟨_, h⟩ := h
        refine .inr (.inr (.inr (.inr ?_)))
        split at h <;> exact other rfl h rfl rfl
      · rename_i k hpc
        split at h
        · cases h
        · rename_i name hn
          split at h
          · rename_i u hu
            exact .inr (.inl ⟨k, io, name, true, u, hpc, rfl, hu, (Option.some.inj h).symm⟩)
          · rename_i u hu
            exact .inr (.inl ⟨k, io, name, false, u, hpc, rfl, hu, (Option.some.inj h).symm⟩)
      · rename_i k hpc
        exact .inr (.inr (.inr (.inl ⟨k, io, hpc, rfl, (Option.some.inj h).symm⟩)))
      · rename_i k ok hpc
        exact .inr (.inr (.inl ⟨k, ok, io, hpc, rfl, (Option.some.inj h).symm⟩))
      · exact .inr (.inr (.inr (.inr (other rfl h rfl rfl))))
      · cases h

/-- `worker_open_card()` returns with a card only when the driver has opened it. -/
theorem opened_of_gotCard {act : Act} (h : w.step v act = some w')
    (hg : w'.pc.gotCard = true) : ∃ k io, w.pc = .opened k ∧ act = .cont io := by
  have no : w'.pc.gotCard = false → ∃ k io, w.pc = .opened k ∧ act = .cont io := by
    intro hn
    rw [hg] at hn
    cases hn
  obtain ⟨pdu, io, _, rfl⟩ | ⟨k, io, name, ok, u, _, _, _, rfl⟩ | ⟨k, ok, io, _, _, rfl⟩ |
    ⟨k, io, hpc, ha, _⟩ | ⟨_, _, hn⟩ := step_shape h
  · exact no (gotCard_handleRspro io pdu)
  · exact no (by cases ok <;> rfl)
  · exact no (gotCard_afterTry ok io k)
  · exact ⟨k, io, hpc, ha⟩
  · exact no hn

theorem written_of_sent {pdus : List RsproPDU} (h : w'.sent = w.sent ++ pdus) :
    w.written w' = pdus := by
  rw [written, h, List.drop_left]

theorem written_of_same (h : w'.sent = w.sent) : w.written w' = [] :=
  written_of_sent (h.trans (List.append_nil _).symm)

theorem step_unconnected {act : Act} (h : w.step v act = some w')
    (hu : w.pc.unconnected = true) :
    (w'.pc.unconnected = true ∧ w'.pc.gotCard = false ∧ w.emits act w' = []) ∨
      (act = .accept ∧ w'.pc = .wait ∧ w.emits act w' = [.accepted, .waits false]) := by
  have quiet : ∀ {u : Worker}, u.pc = .accept → u.sent = w.sent →
      (w.written u).map .sent ++ u.waitEvents = [] := by
    intro u hpc hsent
    have hwait : u.waitEvents = [] := by
      rw [waitEvents, hpc]
      rfl
    rw [written_of_same hsent, hwait]
    rfl
  cases act with
  | accept =>
      simp only [step, Option.ite_none_right_eq_some, Option.some.injEq] at h
      obtain ⟨_, rfl⟩ := h
      exact .inr ⟨rfl, rfl, rfl⟩
  | boot =>
      simp only [step, Option.ite_none_right_eq_some, Option.some.injEq] at h
      obtain ⟨hpc, rfl⟩ := h
      exact .inl ⟨rfl, rfl, quiet rfl rfl⟩
  | select r =>
      simp only [step, Option.ite_none_right_eq_some] at h
      rw [h.1] at hu
      cases hu
  | recv pdu io =>
      simp only [step, Option.ite_none_right_eq_some] at h
      rw [h.1] at hu
      cases hu
  | cont io =>
      cases hpc : w.pc with
      | recycle =>
          simp only [step, hpc, Option.some.injEq] at h
          subst h
          refine .inl ⟨rfl, rfl, ?_⟩
          simp only [emits, hpc]
          exact quiet rfl rfl
      | boot => simp [step, hpc] at h
      | accept => simp [step, hpc] at h
      | _ => simp [hpc, Pc.unconnected] at hu

theorem emits_eq {act : Act} (ha : act ≠ .accept) (ho : ∀ k, w.pc ≠ .opened k) :
    w.emits act w' = w.statusEvents act ++ (w.written w').map .sent ++ w'.waitEvents := by
  unfold emits
  split
  · exact absurd rfl ha
  · rename_i k hpc
    exact absurd hpc (ho k)
  · rfl

theorem statusEvents_cases (act : Act) :
    w.statusEvents act = [] ∨ ∃ st io, act = .recv (some (.clientSlotStatusInd st)) io ∧
      w.statusEvents act = [.status st (w.resets st)] := by
  unfold statusEvents
  split
  · exact .inr ⟨_, _, rfl, rfl⟩
  · exact .inl rfl

/-- Such a step adds handled reports, PDUs and a call of `select()`. -/
theorem mem_emits {act : Act} (ha : act ≠ .accept) (ho : ∀ k, w.pc ≠ .opened k) {e : Evt}
    (he : e ∈ w.emits act w') :
    (∃ st r, e = .status st r) ∨ (∃ pdu, e = .sent pdu) ∨ ∃ card, e = .waits card := by
  rw [emits_eq ha ho, List.mem_append, List.mem_append] at he
  rcases he with (he | he) | he
  · rcases w.statusEvents_cases act with hs | ⟨st, io, _, hs⟩
    · rw [hs] at he
      cases he
    · rw [hs, List.mem_singleton] at he
      exact .inl ⟨st, _, he⟩
  · obtain ⟨pdu, _, rfl⟩ := List.mem_map.mp he
    exact .inr (.inl ⟨pdu, rfl⟩)
  · unfold waitEvents at he
    split_ifs at he
    · rw [List.mem_singleton] at he
      exact .inr (.inr ⟨_, he⟩)
    · cases he

theorem step_opened {act : Act} (h : w.step v act = some w') {k : Caller} (hpc : w.pc = .opened k) :
    w'.pc = .returned k true ∧ w'.atr = w.atr ∧ w'.lines = w.lines ∧
      w.emits act w' = [.opened w.atr] := by
  cases act with
  | cont io =>
      simp only [step, hpc, Option.some.injEq] at h
      subst h
      refine ⟨rfl, rfl, rfl, ?_⟩
      simp only [emits, hpc]
  | _ => simp [step, hpc] at h

end Worker

namespace Journal

variable {t t' : Journal}

/-- **A step of the thread, or the handling of a signal.** -/
theorem next_cases {l : Label} (h : t.next l = some t') :
    (∃ v act, l = .run v act ∧ t.worker.step v act = some t'.worker ∧
        t'.log = t.log ++ t.worker.emits act t'.worker) ∨
      ∃ sig, l = .signal sig ∧ t'.worker = t.worker.handleSig sig ∧ t'.log = t.log := by
  cases l with
  | run v act =>
      obtain ⟨w', hs, rfl⟩ := Option.map_eq_some_iff.mp h
      exact .inl ⟨v, act, rfl, hs, rfl⟩
  | signal sig =>
      simp only [next, Option.ite_none_left_eq_some, Option.some.injEq] at h
      obtain ⟨_, rfl⟩ := h
      exact .inr ⟨sig, rfl, rfl, rfl⟩

/-- **Every worker of the process is such a thread.** -/
theorem reach_journal {re : Regex} {d : Bankd} {C : Bankd → Bankd.Label → Prop}
    (h : (Bankd.lts re).Reach C d) :
    ∀ w ∈ d.workers, ∃ log, lts.Reach Transition.Lts.Any ⟨w, log⟩ := by
  refine h.invariant
    (I := fun d => ∀ w ∈ d.workers, ∃ log, lts.Reach Transition.Lts.Any ⟨w, log⟩) ?_ ?_
  · rintro _ ⟨bank, names, ki, rfl⟩ w hw
    obtain rfl := (List.mem_replicate.mp hw).2
    exact ⟨[], .init rfl⟩
  · intro d l d' hI _ hst
    rcases Bankd.next_cases hst with ⟨pdu, rfl, rfl⟩ | ⟨i, sig, w, rfl, hw, _, hboot, rfl⟩ |
      ⟨i, act, w, w', rfl, hw, hs, rfl⟩
    · exact hI
    · intro u hu
      rcases Bankd.mem_setWorker hu with rfl | hu
      · obtain ⟨log, hlog⟩ := hI w (List.mem_of_getElem? hw)
        have hn : next ⟨w, log⟩ (.signal sig) = some ⟨w.handleSig sig, log⟩ := if_neg hboot
        exact ⟨log, hlog.step trivial hn⟩
      · exact hI u hu
    · intro u hu
      rcases Bankd.mem_setWorker hu with rfl | hu
      · obtain ⟨log, hlog⟩ := hI w (List.mem_of_getElem? hw)
        have hn : next ⟨w, log⟩ (.run (d.view re i w) act) =
            some ⟨u, log ++ w.emits act u⟩ := by
          simp only [next, hs, Option.map_some]
        exact ⟨_, hlog.step trivial hn⟩
      · exact hI u hu

/-! ### Connections with a card -/

/-- A process that maps every client to one bank slot, whose reader has a card. -/
def cardView : View where
  regex := ⟨fun _ => true, fun _ _ => true⟩
  slotName := fun _ => some "reader"
  byClient := fun _ => some ⟨1, 0⟩
  tpdu := fun _ _ _ io => io.transmit

/-- PC/SC and the socket work, and the card has a short ATR. -/
def cardIo : Io where
  establish := true
  readers := some ["reader"]
  connect := true
  status := some [0x3b, 0x00]
  reconnect := true
  transmit := some [0x90, 0x00]
  write := true
  writeAtr := true

/-- A message is received, or the end of the connection. -/
def receive (pdu : Option RsproPDU) : List Label :=
  [.run cardView (.select .readable), .run cardView (.recv pdu cardIo)]

/-- A number of further steps in that process. -/
def goOn (n : ℕ) : List Label := List.replicate n (.run cardView (.cont cardIo))

/-- A client connects and is given its card. -/
def connect : List Label :=
  .run cardView .accept :: receive (some (.connectClientReq .remsimClient (some ⟨5, 0⟩))) ++ goOn 7

end Journal

end Remsim
