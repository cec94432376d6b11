import Remsim.Process

/-! # Client sessions of the bankd

Two properties of the workers, each kept by every move whose lookup meets a condition.

*Identification.*  A worker that has a mapping was told the client slot on the current connection.
The interrupt branch of `worker_transceive_loop()` looks up a mapping in every state, also before
the client has identified itself, when `clslot` is still zero.  So the property holds as long as no
such lookup finds a mapping of client slot 0:0.

*The right card.*  A worker with an open card has the reader name of its bank slot, and a handle
to a reader that matches it.  `worker_open_card()` keeps a name and a handle that are already there,
and `worker_try_slotmap()` assigns the slot without looking at them; besides, both change the state
without looking at it, which undoes a `SIGMAPDEL` handled meanwhile.  The property holds as long as
neither happens. -/

namespace Remsim
namespace Bankd

variable {d : Bankd} {re : Regex}

/-! ### Identification -/

/-- The client slot was announced on the connection whenever there is a mapping or a thread on its
way to one. -/
structure Identified (pc : Pc) (k : Worker.Core) : Prop where
  known : (k.ident = none ∧ k.clslot = ⟨0, 0⟩) ∨ k.ident = some k.clslot
  idle : pc = .boot ∨ pc = .accept → k.ident = none
  mapped : k.state.mapped = true ∨ pc.opening → k.ident = some k.clslot

/-- A lookup on a connection that has not been identified finds no mapping of client slot 0:0. -/
def lookupIdentified (d : Bankd) : Label → Bool
  | .worker i _ =>
      (d.workers[i]?).all fun w =>
        match w.pc with
        | .lookup _ => w.ident.isSome || (d.byClient ⟨0, 0⟩).isNone
        | _ => true
  | _ => true

theorem identified_mapdel {w : Worker} (h : Identified w.pc w.core) :
    Identified w.pc w.handleSigMapdel.core := by
  unfold Worker.handleSigMapdel
  split_ifs with hst
  · refine ⟨h.known, h.idle, fun hm => ?_⟩
    rcases hm with hm | hm
    · cases hm
    · exact h.mapped (.inr hm)
  · exact h

theorem identified_move {i : ℕ} {act : Act} {w : Worker} {pc : Pc} {k : Worker.Core}
    (hc : lookupIdentified d (.worker i act) = true) (hw : d.workers[i]? = some w)
    (h : Identified w.pc w.core) (hm : Worker.Move (d.view re i w) w pc k) : Identified pc k := by
  have hunset : ∀ {pc : Pc} {k : Worker.Core}, k.ident = w.ident → k.clslot = w.clslot →
      pc ≠ .boot → pc ≠ .accept → (k.state.mapped = true ∨ pc.opening → w.ident = some w.clslot) →
      Identified pc k := by
    intro pc k hi hcs h₁ h₂ h₃
    refine ⟨?_, fun e => (e.elim h₁ h₂).elim, fun hm => ?_⟩
    · rw [hi, hcs]
      exact h.known
    · rw [hi, hcs]
      exact h₃ hm
  cases hm with
  | boot hpc => exact ⟨h.known, fun _ => h.idle (.inl hpc), fun e => by simp [Pc.opening,
      WorkerState.mapped] at e⟩
  | accept hpc =>
      refine ⟨.inl ⟨rfl, ?_⟩, fun _ => rfl, fun e => by simp [Pc.opening, WorkerState.mapped] at e⟩
      rcases h.known with hk | hk
      · exact hk.2
      · have := h.idle (.inr hpc)
        rw [hk] at this
        cases this
  | @quiet pc ho =>
      refine hunset rfl rfl (fun e => by simp [e, Pc.inLoop] at ho)
        (fun e => by simp [e, Pc.inLoop] at ho) fun e => h.mapped (.inl ?_)
      exact e.resolve_right ho.not_opening
  | retry c hst =>
      refine hunset rfl rfl (by simp) (by simp) fun _ => h.mapped (.inl ?_)
      show w.state.mapped = true
      rw [hst]
      rfl
  | identify cs hst =>
      exact ⟨.inr rfl, fun e => by simp at e, fun _ => rfl⟩
  | missing c hb =>
      exact hunset rfl rfl (by simp) (by simp) fun e => by simp [Pc.opening, WorkerState.mapped] at e
  | @found bs c hpc hb =>
      refine hunset rfl rfl (by simp) (by simp) fun _ => ?_
      rcases h.known with ⟨hi, hz⟩ | hi
      · have hi : w.ident = none := hi
        have hz : w.clslot = ⟨0, 0⟩ := hz
        have hb : d.byClient w.clslot = some bs := hb
        rw [hz] at hb
        simp [lookupIdentified, hw, hpc, hi, hb] at hc
      · exact hi
  | assign hpc =>
      exact hunset rfl rfl (by simp) (by simp) fun _ => h.mapped (.inr (by simp [hpc, Pc.opening]))
  | map hpc =>
      exact hunset rfl rfl (by simp) (by simp) fun _ => h.mapped (.inr (by simp [hpc, Pc.opening]))
  | name hpc hst hn =>
      exact hunset rfl rfl (by simp) (by simp) fun _ => h.mapped (.inr (by simp [hpc, Pc.opening]))
  | driver hpc hn hh hor =>
      have hi := h.mapped (.inr (by simp [hpc, Pc.opening]))
      refine hunset rfl rfl ?_ ?_ fun _ => hi <;> rcases hor with ⟨rfl, _⟩ | rfl <;> simp
  | card hpc =>
      exact hunset rfl rfl (by simp) (by simp) fun _ => h.mapped (.inr (by simp [hpc, Pc.opening]))
  | cleanup hpc =>
      exact ⟨.inl ⟨rfl, rfl⟩, fun _ => rfl, fun e => by simp [Pc.opening, WorkerState.mapped] at e⟩

/-- **No card access before identification**, in every run in which no lookup on a connection that
has not been identified finds a mapping of client slot 0:0: a worker with a mapping has received
its client slot on the current connection, and so has a worker that performs a transceive. -/
theorem mapped_identified (h : (lts re).Reach (fun d l => lookupIdentified d l = true) d) :
    (∀ w ∈ d.workers, w.state.mapped = true → w.ident = some w.clslot) ∧
      ∀ i act w, d.workers[i]? = some w → d.transceives (.worker i act) ≠ [] →
        w.ident = some w.clslot := by
  have hI : ∀ w ∈ d.workers, Identified w.pc w.core :=
    reach_workers (P := fun _ => Identified)
      (fun _ => ⟨.inl ⟨rfl, rfl⟩, fun _ => rfl, fun e => by
        simp [Worker.fresh, Worker.core, Pc.opening, WorkerState.mapped] at e⟩)
      (fun _ _ => identified_mapdel) (fun _ _ _ _ _ _ => identified_move) h
  have hmapped : ∀ w ∈ d.workers, w.state.mapped = true → w.ident = some w.clslot :=
    fun w hw hst => (hI w hw).mapped (.inl hst)
  refine ⟨hmapped, fun i act w hw ht => ?_⟩
  obtain ⟨t, ht⟩ := List.exists_mem_of_ne_nil _ ht
  obtain ⟨j, src, dst, data, io, u, hl, hu, hacc, _⟩ := mem_transceives ht
  obtain ⟨rfl, rfl⟩ := Label.worker.inj hl
  obtain rfl := Option.some.inj (hw.symm.trans hu)
  refine hmapped w (List.mem_of_getElem? hw) ?_
  rw [(tpduAccepted_iff.mp hacc).1]
  rfl

/-! ### Runs -/

/-- Readers and cards that always answer. -/
def fineIo (readers : List String) : Io :=
  ⟨true, some readers, true, some [0x3b, 0x00], true, some [0x90, 0x00], true, true⟩

/-- Regular expressions without special characters, for readers named in full. -/
def literal : Regex := ⟨fun _ => true, fun name reader => name == reader⟩

/-- A bank of two slots with a reader for each. -/
def twoSlots : Bankd :=
  initial ⟨1, 2⟩ [(⟨1, 0⟩, "A"), (⟨1, 1⟩, "B")] ⟨false, 0, [], 0, 0⟩

/-- Worker `i` starts and accepts a connection. -/
def begins (i : ℕ) : List Label := [.worker i .boot, .worker i .accept]

/-- Worker `i` goes on by itself, `n` times. -/
def continues (i n : ℕ) : List Label := List.replicate n (.worker i (.cont (fineIo ["A", "B"])))

/-- Worker `i` reads a message. -/
def receives (i : ℕ) (pdu : Option RsproPDU) : List Label :=
  [.worker i (.select .readable), .worker i (.recv pdu (fineIo ["A", "B"]))]

/-- A client identifies itself to worker `i`, which finds a mapping and opens the card. -/
def identifies (i : ℕ) (cs : ClientSlotT) : List Label :=
  receives i (some (.connectClientReq .remsimClient (some cs))) ++ continues i 7

/-- A `select()` of worker `i` is interrupted; it finds a mapping and opens the card. -/
def interrupted (i : ℕ) : List Label := .worker i (.select .eintr) :: continues i 7

/-- The state after a run. -/
def after (w : List Label) : Bankd :=
  (Transition.exec (fun d => next d literal) twoSlots w).getD twoSlots

theorem reach_after {C : Bankd → Label → Prop} {c : Bankd → Label → Bool}
    (hc : ∀ d l, c d l = true → C d l) {w : List Label}
    (h : (Transition.exec (fun d => next d literal) twoSlots w).isSome = true)
    (ha : Transition.execAll (fun d => next d literal) c twoSlots w = true) :
    (lts literal).Reach C (after w) :=
  Transition.reach_after_of hc ⟨_, _, _, rfl⟩ h ha

/-- A mapping of client slot 5:0 is created and its client served. -/
def servedRun : List Label :=
  .main (.createMappingReq ⟨5, 0⟩ ⟨1, 0⟩) :: begins 0 ++ identifies 0 ⟨5, 0⟩

theorem served_identified :
    ∃ w ∈ (after servedRun).workers, w.state = .connClientMappedCard ∧ w.ident = some ⟨5, 0⟩ := by
  have h := mapped_identified (reach_after (fun _ _ h => h) (w := servedRun) (by decide) (by decide))
  refine ⟨(after servedRun).workers.getD 0 Worker.fresh, by decide, by decide, ?_⟩
  exact (h.1 _ (by decide) (by decide)).trans (by decide)

/-- There is a mapping of client slot 0:0, and a client connects and sends nothing; then
`select()` is interrupted. -/
def anonymousRun : List Label :=
  .main (.createMappingReq ⟨0, 0⟩ ⟨1, 0⟩) :: begins 0 ++ interrupted 0 ++
    [.worker 0 (.select .readable)]

/-- The worker has a mapping and an open card, and a TPDU of the client reaches the card, though
the client never identified itself. -/
theorem anonymous_mapped :
    (lts literal).Reach Transition.Lts.Any (after anonymousRun) ∧
      ∃ w, (after anonymousRun).workers[0]? = some w ∧ w.state.mapped = true ∧ w.ident = none ∧
        (after anonymousRun).transceives (.worker 0
          (.recv (some (.tpduModemToCard ⟨0, 0⟩ ⟨1, 0⟩ [0xa0, 0xa4])) (fineIo []))) ≠ [] := by
  refine ⟨reach_after (c := fun _ _ => true) (fun _ _ _ => trivial) (by decide) (by decide), ?_⟩
  exact ⟨(after anonymousRun).workers.getD 0 Worker.fresh, by decide, by decide, by decide, by decide⟩

/-! ### The right card -/

/-- The reader name is not resolved yet or that of the bank slot. -/
def NameFits (names : List (BankSlot × String)) (name : Option String) (slot : BankSlot) : Prop :=
  name = none ∨ name = pcscGetSlotName names slot

/-- The tie between bank slot, reader name and card handle. -/
structure RightCard (re : Regex) (names : List (BankSlot × String)) (pc : Pc) (k : Worker.Core) :
    Prop where
  handle : ∀ r, k.hCard = some r → ∃ n, k.readerName = some n ∧ re.exec n r = true
  mapped : k.state.mapped = true → NameFits names k.readerName k.slot
  card : k.state = .connClientMappedCard → k.hCard.isSome = true
  found : ∀ bs c, pc = .found bs c → NameFits names k.readerName bs
  assigned : ∀ c, pc = .assigned c → k.state ≠ .connClientUnmapped →
    NameFits names k.readerName k.slot
  opening : Opening pc k
  opened : ∀ c, pc = .opened c → k.hCard.isSome = true

/-- A TPDU is intercepted by the KI proxy. -/
def proxied (d : Bankd) : Label → Bool
  | .worker i (.recv (some (.tpduModemToCard src dst data)) _) =>
      (d.workers[i]?).any fun w => tpduAccepted w src dst && d.kiProxied w data
  | _ => false

/-- A worker with a resolved reader name finds a bank slot of the same name only, and the state is
not set to `MAPPED` or `MAPPED_CARD` after the mapping was revoked. -/
def keepsCard (d : Bankd) : Label → Bool
  | .worker i _ =>
      (d.workers[i]?).all fun w =>
        match w.pc with
        | .lookup _ => (d.byClient w.clslot).all fun bs =>
            w.readerName.isNone || decide (w.readerName = pcscGetSlotName d.slotNames bs)
        | .assigned _ => decide (w.state ≠ .connClientUnmapped)
        | .opened _ => decide (w.state ≠ .connClientUnmapped)
        | _ => true
  | _ => true

theorem rightCard_mapdel {names : List (BankSlot × String)} {w : Worker}
    (h : RightCard re names w.pc w.core) : RightCard re names w.pc w.handleSigMapdel.core := by
  unfold Worker.handleSigMapdel
  split_ifs with hst
  · exact ⟨h.handle, fun e => (by cases e), fun e => (by cases e), h.found,
      fun _ _ e => absurd rfl e, fun _ _ => .inr rfl, h.opened⟩
  · exact h

/-- Places of the loop outside `worker_try_slotmap()` and `worker_open_card()` demand nothing. -/
theorem rightCard_of_inLoop {names : List (BankSlot × String)} {pc : Pc} {k : Worker.Core}
    (hpc : ¬pc.opening) (hh : ∀ r, k.hCard = some r → ∃ n, k.readerName = some n ∧ re.exec n r = true)
    (hm : k.state.mapped = true → NameFits names k.readerName k.slot)
    (hc : k.state = .connClientMappedCard → k.hCard.isSome = true) : RightCard re names pc k := by
  refine ⟨hh, hm, hc, fun bs c e => ?_, fun c e => ?_, fun c e => ?_, fun c e => ?_⟩
  · exact (hpc (by rw [e]; trivial)).elim
  · exact (hpc (by rw [e]; trivial)).elim
  · rcases e with e | e
    · exact (hpc (by rw [e]; trivial)).elim
    · exact (hpc (by rw [e]; trivial)).elim
  · exact (hpc (by rw [e]; trivial)).elim

/-- `worker_open_card()` resolves the reader name. -/
theorem rightCard_name {names : List (BankSlot × String)} {w : Worker} {c : Caller} {n : String}
    (h : RightCard re names w.pc w.core) (hst : w.state = .connClientMapped)
    (hn : (w.readerName <|> pcscGetSlotName names w.slot) = some n)
    (hop : Opening (.driver c) { w.core with readerName := some n }) :
    RightCard re names (.driver c) { w.core with readerName := some n } := by
  have hfit : NameFits names w.readerName w.slot := h.mapped (by
    show w.state.mapped = true
    rw [hst]
    rfl)
  refine ⟨fun r hr => ?_, fun _ => .inr ?_, fun e => ?_, fun _ _ e => (by cases e),
    fun _ e => (by cases e), hop, fun _ e => (by cases e)⟩
  · obtain ⟨n', hn', hex⟩ := h.handle r hr
    have hn' : w.readerName = some n' := hn'
    rw [hn'] at hn
    obtain rfl := Option.some.inj hn
    exact ⟨n', rfl, hex⟩
  · show some n = pcscGetSlotName names w.slot
    rcases hfit with hnone | hfit
    · rw [hnone] at hn
      exact hn.symm
    · rw [hfit] at hn
      cases hs : pcscGetSlotName names w.slot with
      | none =>
          rw [hs] at hn
          cases hn
      | some n' =>
          rw [hs] at hn
          exact hn.symm
  · have e : w.state = .connClientMappedCard := e
    rw [hst] at e
    cases e

/-- `ops->open_card()` connects the reader that matches the name, or keeps the handle. -/
theorem rightCard_driver {names : List (BankSlot × String)} {w : Worker} {c : Caller} {n : String}
    {hc : Option String} {pc : Pc} (h : RightCard re names w.pc w.core) (hpc : w.pc = .driver c)
    (hn : w.readerName = some n)
    (hh : hc = w.hCard ∨ (w.hCard = none ∧ ∃ r, hc = some r ∧ re.exec n r = true))
    (hor : (pc = .opened c ∧ hc.isSome = true) ∨ pc = .returned c false)
    (hop : Opening pc { w.core with hCard := hc }) :
    RightCard re names pc { w.core with hCard := hc } := by
  have hst := h.opening c (.inl hpc)
  have hhandle : ∀ r, hc = some r → ∃ n, w.readerName = some n ∧ re.exec n r = true := by
    intro r hr
    rcases hh with rfl | ⟨_, r', rfl, hex⟩
    · exact h.handle r hr
    · obtain rfl := Option.some.inj hr
      exact ⟨n, hn, hex⟩
  have hcard : w.state ≠ .connClientMappedCard := by
    intro e
    rcases hst with hst | hst
    · exact absurd (hst.symm.trans e) (by decide)
    · exact absurd (hst.symm.trans e) (by decide)
  rcases hor with ⟨rfl, hsome⟩ | rfl
  · exact ⟨hhandle, h.mapped, fun e => absurd e hcard, fun _ _ e => (by cases e),
      fun _ e => (by cases e), hop, fun _ _ => hsome⟩
  · exact rightCard_of_inLoop id hhandle h.mapped fun e => absurd e hcard

theorem rightCard_move {i : ℕ} {act : Act} {w : Worker} {pc : Pc} {k : Worker.Core}
    (hc : keepsCard d (.worker i act) = true) (hw : d.workers[i]? = some w)
    (h : RightCard re d.slotNames w.pc w.core) (hm : Worker.Move (d.view re i w) w pc k) :
    RightCard re d.slotNames pc k := by
  have hcond := hc
  simp only [keepsCard, hw, Option.all_some] at hcond
  have hop : Opening pc k := h.opening.move hm
  cases hm with
  | boot hpc => exact rightCard_of_inLoop id h.handle (fun e => by cases e) fun e => by cases e
  | accept hpc => exact rightCard_of_inLoop id h.handle (fun e => by cases e) fun e => by cases e
  | quiet ho => exact rightCard_of_inLoop ho.not_opening h.handle h.mapped h.card
  | retry c hst =>
      exact ⟨h.handle, h.mapped, h.card, fun _ _ e => (by cases e), fun _ e => (by cases e),
        hop, fun _ e => (by cases e)⟩
  | identify cs hst =>
      exact rightCard_of_inLoop id h.handle (fun e => by cases e) fun e => by cases e
  | missing c hb => exact rightCard_of_inLoop id h.handle (fun e => by cases e) fun e => by cases e
  | @found bs c hpc hb =>
      have hb : d.byClient w.clslot = some bs := hb
      simp only [hpc, hb, Option.all_some, Bool.or_eq_true, Option.isNone_iff_eq_none,
        decide_eq_true_eq] at hcond
      refine ⟨h.handle, h.mapped, h.card, fun bs' c' e => ?_, fun _ e => (by cases e),
        hop, fun _ e => (by cases e)⟩
      obtain ⟨rfl, _⟩ := Pc.found.inj e
      exact hcond
  | @assign bs c hpc =>
      have hfit := h.found bs c hpc
      exact ⟨h.handle, fun _ => hfit, h.card, fun _ _ e => (by cases e), fun _ _ _ => hfit,
        hop, fun _ e => (by cases e)⟩
  | @map c hpc =>
      simp only [hpc, decide_eq_true_eq] at hcond
      exact ⟨h.handle, fun _ => h.assigned c hpc hcond, fun e => (by cases e),
        fun _ _ e => (by cases e), fun _ e => (by cases e),
        hop, fun _ e => (by cases e)⟩
  | name hpc hst hn => exact rightCard_name h hst hn hop
  | driver hpc hn hh hor => exact rightCard_driver h hpc hn hh hor hop
  | @card c hpc =>
      simp only [hpc, decide_eq_true_eq] at hcond
      have hst : w.state = .connClientMapped := (h.opening c (.inr hpc)).resolve_right hcond
      refine rightCard_of_inLoop id h.handle (fun _ => h.mapped ?_) fun _ => h.opened c hpc
      show w.state.mapped = true
      rw [hst]
      rfl
  | cleanup hpc =>
      exact rightCard_of_inLoop id (fun r e => by cases e) (fun e => by cases e) fun e => by cases e

/-- **A mapped worker talks to the right card**, in every run whose steps all meet `keepsCard`: with
an open card it has the reader name of its bank slot and a handle to a reader that matches that
name, and each TPDU the KI proxy does not intercept is transceived with a reader of the bank slot
it was accepted for. -/
theorem mappedCard_right (h : (lts re).Reach (fun d l => keepsCard d l = true) d) :
    (∀ w ∈ d.workers, w.state = .connClientMappedCard → ∃ n r,
        pcscGetSlotName d.slotNames w.slot = some n ∧ w.readerName = some n ∧ w.hCard = some r ∧
        re.exec n r = true) ∧
      ∀ l, d.proxied l = false → ∀ t ∈ d.transceives l, ∃ n r,
        pcscGetSlotName d.slotNames t.bank = some n ∧ t.reader = some r ∧ re.exec n r = true := by
  have hI : ∀ w ∈ d.workers, RightCard re d.slotNames w.pc w.core :=
    reach_workers (P := RightCard re)
      (fun _ => rightCard_of_inLoop id (fun r e => by cases e) (fun e => by cases e)
        fun e => by cases e)
      (fun _ _ => rightCard_mapdel) (fun _ _ _ _ _ _ => rightCard_move) h
  have hcard : ∀ w ∈ d.workers, w.state = .connClientMappedCard → ∃ n r,
      pcscGetSlotName d.slotNames w.slot = some n ∧ w.readerName = some n ∧ w.hCard = some r ∧
        re.exec n r = true := by
    intro w hw hst
    have hR := hI w hw
    obtain ⟨r, hr⟩ := Option.isSome_iff_exists.mp (hR.card hst)
    obtain ⟨n, hn, hex⟩ := hR.handle r hr
    have hn : w.readerName = some n := hn
    refine ⟨n, r, ?_, hn, hr, hex⟩
    have hfit : NameFits d.slotNames w.readerName w.slot := hR.mapped (by
      show w.state.mapped = true
      rw [hst]
      rfl)
    rw [hn] at hfit
    exact (hfit.resolve_left (Option.some_ne_none n)).symm
  refine ⟨hcard, fun l hl t ht => ?_⟩
  obtain ⟨i, src, dst, data, io, w, rfl, hw, hacc, hb, _, hread⟩ := mem_transceives ht
  obtain ⟨n, r, hn, _, hr, hex⟩ :=
    hcard w (List.mem_of_getElem? hw) (tpduAccepted_iff.mp hacc).1
  have hki : d.kiProxied w data = false := by simpa [proxied, hw, hacc] using hl
  exact ⟨n, r, by rw [hb]; exact hn, (hread hki).trans hr, hex⟩

theorem served_right : ∃ w ∈ (after servedRun).workers, w.slot = ⟨1, 0⟩ ∧
    w.state = .connClientMappedCard ∧ w.readerName = some "A" ∧ w.hCard = some "A" := by
  have h := mappedCard_right
    (reach_after (fun _ _ h => h) (w := servedRun) (by decide) (by decide))
  refine ⟨(after servedRun).workers.getD 0 Worker.fresh, by decide, by decide, by decide, ?_⟩
  obtain ⟨n, r, hn, hname, hr, hex⟩ :=
    h.1 ((after servedRun).workers.getD 0 Worker.fresh) (by decide) (by decide)
  have hA : n = "A" := Option.some.inj (hn.symm.trans (by decide))
  subst hA
  have hrA : "A" = r := by simpa [literal] using hex
  exact ⟨hname, hrA ▸ hr⟩

/-- Worker 0 has served bank slot 1:0 before and is idle again; the next client is served by
worker 1.  Then the mapping is replaced by one to bank slot 1:1. -/
def reassignedRun : List Label :=
  .main (.createMappingReq ⟨5, 0⟩ ⟨1, 0⟩) :: begins 0 ++ identifies 0 ⟨5, 0⟩ ++
    [.worker 0 (.select .error), .worker 0 (.cont (fineIo []))] ++ begins 1 ++
    identifies 1 ⟨5, 0⟩ ++ [.main (.removeMappingReq ⟨5, 0⟩ ⟨1, 0⟩), .signal 0 (.mapDel 1),
      .main (.createMappingReq ⟨5, 0⟩ ⟨1, 1⟩), .signal 1 .mapAdd] ++ interrupted 1 ++
    [.worker 1 (.select .readable)]

/-- Worker 1 is mapped to bank slot 1:1 and has the card of bank slot 1:0 open; a TPDU for 1:1 is
transceived with that card. -/
theorem reassigned_wrong :
    (lts literal).Reach Transition.Lts.Any (after reassignedRun) ∧
      ∃ w, (after reassignedRun).workers[1]? = some w ∧ w.state = .connClientMappedCard ∧
        w.slot = ⟨1, 1⟩ ∧ pcscGetSlotName (after reassignedRun).slotNames w.slot = some "B" ∧
        w.readerName = some "A" ∧ w.hCard = some "A" ∧
        (after reassignedRun).transceives (.worker 1
          (.recv (some (.tpduModemToCard ⟨5, 0⟩ ⟨1, 1⟩ [0xa0, 0xa4])) (fineIo []))) =
            [⟨⟨1, 1⟩, ⟨5, 0⟩, some "A"⟩] := by
  refine ⟨reach_after (c := fun _ _ => true) (fun _ _ _ => trivial) (by decide) (by decide), ?_⟩
  exact ⟨(after reassignedRun).workers.getD 1 Worker.fresh, by decide, by decide, by decide,
    by decide, by decide, by decide, by decide⟩

end Bankd
end Remsim
