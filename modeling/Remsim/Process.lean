import Remsim.Worker
import Remsim.Transition

/-! # The bankd process

The main thread and all worker threads as one transition system: the main thread handles a PDU of
the server, a pending signal is delivered to a worker, or a worker makes a step.  The server and the
clients are arbitrary.

`next_cases` is the inversion of a step, and `reach_workers` the invariant rule for properties of
the single workers. -/

namespace Remsim

/-- The configuration of the KI proxy (`cfg.ki_proxy`), as far as it is read. -/
structure KiProxy where
  enabled : Bool
  proxySlot : ℕ
  proxySlots : List ℕ
  virtualSlotStart : ℕ
  virtualSlotEnd : ℕ
deriving DecidableEq, Repr

/-- `struct bankd`: its configuration, the slot maps, the workers in list order with the signals
pending for their threads, and the round-robin index of the KI proxy.  `serial` numbers the PDUs of
the server; `revoked` holds the pairs that were removed by `bankd_srvc_remove_mapping()` and not
created again, with the number of the PDU. -/
structure Bankd where
  bank : BankCfg
  slotNames : List (BankSlot × String)
  kiProxy : KiProxy
  slotmaps : Slotmaps
  workers : List Worker
  pending : ℕ → List Signal
  nextSlotIdx : ℕ
  serial : ℕ
  revoked : BankSlot × ClientSlot → Option ℕ

/-- A transceive: the slots for which the TPDU was accepted and the reader that the card handle
is connected to. -/
structure Transceive where
  bank : BankSlot
  client : ClientSlot
  reader : Option String
deriving DecidableEq, Repr

/-- `bankd_pcsc_get_slot_name()`. -/
def pcscGetSlotName (slotNames : List (BankSlot × String)) (slot : BankSlot) : Option String :=
  (slotNames.find? fun e => e.1 = slot).map Prod.snd

/-- The selection loop of `worker_handle_ki_proxy()`: the slot, if there is one, and the next
index.  The first argument counts the attempts left. -/
def kiProxyRoundRobin (pool : List ℕ) (numSlots : ℕ) : ℕ → ℕ → Option ℕ × ℕ
  | 0, idx => (none, idx)
  | n + 1, idx =>
      let selected := pool.getD idx 0
      let next := (idx + 1) % pool.length
      if selected ≥ numSlots then kiProxyRoundRobin pool numSlots n next
      else (some selected, next)

namespace Bankd

/-- The state after start-up. -/
def initial (bank : BankCfg) (slotNames : List (BankSlot × String)) (kiProxy : KiProxy) :
    Bankd where
  bank := bank
  slotNames := slotNames
  kiProxy := kiProxy
  slotmaps := Slotmaps.empty
  workers := List.replicate bank.numSlots.toNat Worker.fresh
  pending := fun _ => []
  nextSlotIdx := 0
  serial := 0
  revoked := fun _ => none

variable (d : Bankd)

/-- The bank slot of the mapping that `slotmap_by_client()` finds. -/
def byClient (client : ClientSlot) : Option BankSlot :=
  (d.slotmaps.slotmapByClient client).bind fun m => (d.slotmaps.heap m).map SlotMapping.bank

/-- The slot that `worker_handle_ki_proxy()` selects, and the next round-robin index. -/
def kiProxySelect : Option ℕ × ℕ :=
  if d.kiProxy.proxySlots.length > 0 then
    kiProxyRoundRobin d.kiProxy.proxySlots d.bank.numSlots.toNat d.kiProxy.proxySlots.length
      d.nextSlotIdx
  else if d.kiProxy.proxySlot ≥ d.bank.numSlots.toNat then (none, d.nextSlotIdx)
  else (some d.kiProxy.proxySlot, d.nextSlotIdx)

/-- The worker whose card `worker_handle_ki_proxy()` uses, on behalf of worker `i`. -/
def kiProxyWorker (i : ℕ) (w : Worker) : Option Worker :=
  match d.kiProxySelect.1 with
  | none => none
  | some selected =>
      let slot : BankSlot := ⟨w.slot.bankId, .ofNat selected⟩
      match d.workers.findIdx? fun p => p.slot = slot && p.state = .connClientMappedCard with
      | none => none
      | some j => if j = i then none else d.workers[j]?

/-- The TPDU is intercepted by the KI proxy. -/
def kiProxied (w : Worker) (data : List UInt8) : Bool :=
  d.kiProxy.enabled && decide (data.length > 1) && decide (data[1]? = some 0x88) &&
    (decide (d.kiProxy.virtualSlotEnd > 0) &&
      decide (d.kiProxy.virtualSlotStart ≤ w.slot.slotNr.toNat) &&
      decide (w.slot.slotNr.toNat ≤ d.kiProxy.virtualSlotEnd))

/-- The checks of `worker_handle_tpduModemToCard()`. -/
def tpduAccepted (w : Worker) (src : ClientSlotT) (dst : BankSlotT) : Bool :=
  decide (w.state = .connClientMappedCard) && decide (w.slot = rspro2bankSlot dst) &&
    decide (w.clslot = rspro2clientSlot src)

/-- The transceive that `worker_handle_tpduModemToCard()` performs. -/
def tpduTransceive (i : ℕ) (w : Worker) (src : ClientSlotT) (dst : BankSlotT)
    (data : List UInt8) : Option Transceive :=
  if tpduAccepted w src dst then
    if d.kiProxied w data then
      (d.kiProxyWorker i w).map fun p => ⟨w.slot, w.clslot, p.hCard⟩
    else some ⟨w.slot, w.clslot, w.hCard⟩
  else none

/-- What worker `i` reads of the process. -/
def view (re : Regex) (i : ℕ) (w : Worker) : View where
  regex := re
  slotName := pcscGetSlotName d.slotNames
  byClient := d.byClient
  tpdu := fun src dst data io => (d.tpduTransceive i w src dst data).bind fun _ => io.transmit

/-- `pthread_kill()`: a further signal is pending for a worker. -/
def kill (pending : ℕ → List Signal) (i : ℕ) (sig : Signal) : ℕ → List Signal :=
  Function.update pending i (pending i ++ [sig])

/-- `send_signal_to_worker()`. -/
def sendSignalToWorker (ws : List Worker) (pending : ℕ → List Signal) (bs : Option BankSlot)
    (cs : Option ClientSlot) (sig : Signal) : ℕ → List Signal :=
  match ws.findIdx? fun w => bs.all (· = w.slot) && cs.all (· = w.clslot) with
  | none => pending
  | some i => kill pending i sig

/-- The signals of a notice. -/
def notify (serial : ℕ) (ws : List Worker) (pending : ℕ → List Signal) :
    Notice → ℕ → List Signal
  | .mapDel bs _ => sendSignalToWorker ws pending (some bs) none (.mapDel serial)
  | .mapAdd _ cs => sendSignalToWorker ws pending none (some cs) .mapAdd
  | .allDel => (List.range ws.length).foldl (fun p i => kill p i (.mapDel serial)) pending

/-- The main thread handles one PDU of the server. -/
def handle (pdu : RsproPDU) : Bankd :=
  let r := d.bank.bankdSrvcHandleRx d.slotmaps pdu
  { d with
    slotmaps := r.slotmaps
    pending := r.notices.foldl (notify d.serial d.workers) d.pending
    serial := d.serial + 1
    revoked := fun e =>
      if .mapAdd e.1 e.2 ∈ r.notices then none
      else if .mapDel e.1 e.2 ∈ r.notices then some d.serial
      else d.revoked e }

/-- The record of a worker is replaced. -/
def setWorker (i : ℕ) (w : Worker) : Bankd := { d with workers := d.workers.set i w }

/-- The steps of the process: a PDU of the server, the delivery of a pending signal, and a step of
a worker. -/
inductive Label where
  | main (pdu : RsproPDU)
  | signal (i : ℕ) (sig : Signal)
  | worker (i : ℕ) (act : Act)
deriving DecidableEq, Repr

/-- The round-robin index after a worker step. -/
def nextIdx (w : Worker) : Act → ℕ
  | .recv (some (.tpduModemToCard src dst data)) _ =>
      if w.pc = .read ∧ tpduAccepted w src dst ∧ d.kiProxied w data then d.kiProxySelect.2
      else d.nextSlotIdx
  | _ => d.nextSlotIdx

/-- The transceives of a step. -/
def transceives : Label → List Transceive
  | .worker i (.recv (some (.tpduModemToCard src dst data)) _) =>
      match d.workers[i]? with
      | none => []
      | some w => if w.pc = .read then (d.tpduTransceive i w src dst data).toList else []
  | _ => []

/-- The successor state, if the step can happen.  Before its thread has started, a worker cannot
handle a signal. -/
def next (re : Regex) : Label → Option Bankd
  | .main pdu => some (d.handle pdu)
  | .signal i sig =>
      match d.workers[i]? with
      | none => none
      | some w =>
          if sig ∈ d.pending i ∧ w.pc ≠ .boot then
            some { d.setWorker i (w.handleSig sig) with
              pending := Function.update d.pending i ((d.pending i).erase sig) }
          else none
  | .worker i act =>
      match d.workers[i]? with
      | none => none
      | some w => (w.step (d.view re i w) act).map fun w' =>
          { d.setWorker i w' with nextSlotIdx := d.nextIdx w act }

/-- The transition system of the bankd with an arbitrary server and arbitrary clients. -/
def lts (re : Regex) : Transition.Lts Bankd Label :=
  Transition.ofFun (fun d => ∃ bank names ki, d = initial bank names ki) (next · re)

/-! ### What a step of the process can do -/

variable {d} {d' : Bankd} {re : Regex}

/-- **The steps of the process.** -/
theorem next_cases {l : Label} (h : (lts re).step d l d') :
    (∃ pdu, l = .main pdu ∧ d' = d.handle pdu) ∨
      (∃ i sig w, l = .signal i sig ∧ d.workers[i]? = some w ∧ sig ∈ d.pending i ∧ w.pc ≠ .boot ∧
        d' = { d.setWorker i (w.handleSig sig) with
          pending := Function.update d.pending i ((d.pending i).erase sig) }) ∨
      ∃ i act w w', l = .worker i act ∧ d.workers[i]? = some w ∧
        w.step (d.view re i w) act = some w' ∧
        d' = { d.setWorker i w' with nextSlotIdx := d.nextIdx w act } := by
  have h : d.next re l = some d' := h
  cases l with
  | main pdu => exact .inl ⟨pdu, rfl, (Option.some.inj h).symm⟩
  | signal i sig =>
      simp only [next] at h
      split at h
      · cases h
      · rename_i w hw
        simp only [Option.ite_none_right_eq_some, Option.some.injEq] at h
        exact .inr (.inl ⟨i, sig, w, rfl, hw, h.1.1, h.1.2, h.2.symm⟩)
  | worker i act =>
      simp only [next] at h
      split at h
      · cases h
      · rename_i w hw
        obtain ⟨w', hs, rfl⟩ := Option.map_eq_some_iff.mp h
        exact .inr (.inr ⟨i, act, w, w', rfl, hw, hs, rfl⟩)

theorem mem_setWorker {i : ℕ} {w u : Worker} (h : u ∈ (d.setWorker i w).workers) :
    u = w ∨ u ∈ d.workers := by
  rcases List.mem_or_eq_of_mem_set h with h | h
  · exact .inr h
  · exact .inl h

/-- The transceives of a step are those of a worker that accepts a TPDU. -/
theorem mem_transceives {l : Label} {t : Transceive} (h : t ∈ d.transceives l) :
    ∃ i src dst data io w, l = .worker i (.recv (some (.tpduModemToCard src dst data)) io) ∧
      d.workers[i]? = some w ∧ tpduAccepted w src dst = true ∧ t.bank = w.slot ∧
      t.client = w.clslot ∧ (d.kiProxied w data = false → t.reader = w.hCard) := by
  cases l with
  | main pdu => cases h
  | signal i sig => cases h
  | worker i act =>
      unfold transceives at h
      split at h
      · rename_i src dst data io heq
        obtain ⟨rfl, rfl⟩ := Label.worker.inj heq
        split at h
        · cases h
        · rename_i w hw
          split_ifs at h
          · rw [Option.mem_toList] at h
            unfold tpduTransceive at h
            split_ifs at h with hacc hki
            · obtain ⟨p, _, rfl⟩ := Option.map_eq_some_iff.mp h
              exact ⟨i, src, dst, data, io, w, rfl, hw, hacc, rfl, rfl, by simp [hki]⟩
            · obtain rfl := Option.some.inj h
              exact ⟨i, src, dst, data, io, w, rfl, hw, hacc, rfl, rfl, fun _ => rfl⟩
          · cases h
      · cases h

theorem tpduAccepted_iff {w : Worker} {src : ClientSlotT} {dst : BankSlotT} :
    tpduAccepted w src dst = true ↔ w.state = .connClientMappedCard ∧
      w.slot = rspro2bankSlot dst ∧ w.clslot = rspro2clientSlot src := by
  simp [tpduAccepted, and_assoc]

/-- The step rule for a property of the single workers: the handler of `SIGMAPDEL` keeps it, and so
does every move of a step that meets the condition. -/
theorem workers_step {P : List (BankSlot × String) → Pc → Worker.Core → Prop}
    {C : Bankd → Label → Prop}
    (hsig : ∀ names (w : Worker), P names w.pc w.core → P names w.pc w.handleSigMapdel.core)
    (hmove : ∀ d i act (w : Worker) pc k, C d (.worker i act) → d.workers[i]? = some w →
      P d.slotNames w.pc w.core → Worker.Move (d.view re i w) w pc k → P d.slotNames pc k)
    (hI : ∀ w ∈ d.workers, P d.slotNames w.pc w.core) {l : Label} (hc : C d l)
    (hst : (lts re).step d l d') : ∀ w ∈ d'.workers, P d'.slotNames w.pc w.core := by
  rcases next_cases hst with ⟨pdu, rfl, rfl⟩ | ⟨i, sig, w, rfl, hw, _, _, rfl⟩ |
    ⟨i, act, w, w', rfl, hw, hs, rfl⟩
  · exact hI
  · intro u hu
    rcases mem_setWorker hu with rfl | hu
    · have := hI w (List.mem_of_getElem? hw)
      cases sig with
      | mapDel n =>
          have hpc : w.handleSigMapdel.pc = w.pc := by
            unfold Worker.handleSigMapdel
            split_ifs <;> rfl
          show P d.slotNames w.handleSigMapdel.pc w.handleSigMapdel.core
          rw [hpc]
          exact hsig _ w this
      | mapAdd => exact this
    · exact hI u hu
  · intro u hu
    rcases mem_setWorker hu with rfl | hu
    · exact hmove d i act w _ _ hc hw (hI w (List.mem_of_getElem? hw)) (Worker.step_move hs)
    · exact hI u hu

/-- The invariant rule for a property of the single workers: it holds of new workers, too. -/
theorem reach_workers {P : List (BankSlot × String) → Pc → Worker.Core → Prop}
    {C : Bankd → Label → Prop} (hfresh : ∀ names, P names Worker.fresh.pc Worker.fresh.core)
    (hsig : ∀ names (w : Worker), P names w.pc w.core → P names w.pc w.handleSigMapdel.core)
    (hmove : ∀ d i act (w : Worker) pc k, C d (.worker i act) → d.workers[i]? = some w →
      P d.slotNames w.pc w.core → Worker.Move (d.view re i w) w pc k → P d.slotNames pc k)
    (h : (lts re).Reach C d) : ∀ w ∈ d.workers, P d.slotNames w.pc w.core := by
  refine h.invariant (I := fun d => ∀ w ∈ d.workers, P d.slotNames w.pc w.core) ?_ ?_
  · rintro _ ⟨bank, names, ki, rfl⟩ w hw
    obtain rfl := (List.mem_replicate.mp hw).2
    exact hfresh names
  · exact fun d l d' hI hc hst => workers_step hsig hmove hI hc hst

/-- While the card is being opened the worker is `MAPPED`, or `SIGMAPDEL` has been handled. -/
def Opening (pc : Pc) (k : Worker.Core) : Prop :=
  ∀ c, pc = .driver c ∨ pc = .opened c →
    k.state = .connClientMapped ∨ k.state = .connClientUnmapped

theorem Opening.of_not {pc : Pc} {k : Worker.Core} (h : ∀ c, pc ≠ .driver c ∧ pc ≠ .opened c) :
    Opening pc k :=
  fun c e => (e.elim (h c).1 (h c).2).elim

theorem Opening.mapdel {w : Worker} (h : Opening w.pc w.core) :
    Opening w.pc w.handleSigMapdel.core := by
  unfold Worker.handleSigMapdel
  split_ifs
  · exact fun _ _ => .inr rfl
  · exact h

theorem Opening.move {v : View} {w : Worker} {pc : Pc} {k : Worker.Core} (h : Opening w.pc w.core)
    (hm : Worker.Move v w pc k) : Opening pc k := by
  cases hm with
  | name hpc hst hn => exact fun _ _ => .inl hst
  | driver hpc hn hh hor => exact fun _ _ => h _ (.inl hpc)
  | quiet ho =>
      refine Opening.of_not fun c => ⟨fun e => ?_, fun e => ?_⟩
      · rw [e] at ho
        exact ho
      · rw [e] at ho
        exact ho
  | _ => exact Opening.of_not fun c => ⟨by simp, by simp⟩

end Bankd

end Remsim
