import Remsim.Session

/-! # Revocation of mappings in the bankd

When the main thread removes a mapping it signals one worker: the first in the list whose `slot`
is the bank slot of the mapping.  The worker's handler acts on the signal if the worker is mapped at
that moment.  So revocation is effective if every worker that holds the mapping is the one that is
signalled, if the signal does not arrive between the lookup of the mapping and the change of the
state, and if a state set by the handler is not overwritten (`revokes`).

The invariant behind it: a worker that holds a revoked mapping has the signal pending. -/

namespace Remsim

/-- A worker has the mapping, or is about to take it. -/
def holdsAt (pc : Pc) (k : Worker.Core) (bs : BankSlot) (cs : ClientSlot) : Bool :=
  decide (k.clslot = cs) &&
    ((match pc with
      | .found b _ => decide (b = bs) && decide (k.state ≠ .connClientUnmapped)
      | .assigned _ => decide (k.slot = bs) && decide (k.state ≠ .connClientUnmapped)
      | _ => false) ||
    (k.state.mapped && decide (k.slot = bs)))

/-- The mappings that a worker holds. -/
def Worker.holds (w : Worker) (bs : BankSlot) (cs : ClientSlot) : Bool := holdsAt w.pc w.core bs cs

theorem holdsAt_iff {pc : Pc} {k : Worker.Core} {bs : BankSlot} {cs : ClientSlot} :
    holdsAt pc k bs cs = true ↔ k.clslot = cs ∧
      ((∃ c, pc = .found bs c) ∧ k.state ≠ .connClientUnmapped ∨
        (∃ c, pc = .assigned c) ∧ k.slot = bs ∧ k.state ≠ .connClientUnmapped ∨
        k.state.mapped = true ∧ k.slot = bs) := by
  cases pc <;> simp [holdsAt]

namespace BankCfg

/-- What handling a PDU of the server does to the table and announces to the workers. -/
theorem bankdSrvcHandleRx_spec (bank : BankCfg) {sm : Slotmaps} (h : sm.Wf) (pdu : RsproPDU) :
    (bank.bankdSrvcHandleRx sm pdu).slotmaps.Wf ∧
      (∀ e ∈ (bank.bankdSrvcHandleRx sm pdu).slotmaps.table,
        e ∈ sm.table ∨ .mapAdd e.1 e.2 ∈ (bank.bankdSrvcHandleRx sm pdu).notices) ∧
      ∀ b c, .mapDel b c ∈ (bank.bankdSrvcHandleRx sm pdu).notices →
        (b, c) ∉ (bank.bankdSrvcHandleRx sm pdu).slotmaps.table := by
  cases pdu with
  | createMappingReq client b =>
      simp only [bankdSrvcHandleRx]
      cases bank.check b with
      | ok =>
          obtain ⟨h₁, h₂, h₃, h₄, _, _⟩ :=
            createMapping_spec h (rspro2bankSlot b) (rspro2clientSlot client)
          refine ⟨h₁, fun e he => ?_, fun b' c' hn => ?_⟩
          · rw [h₂] at he
            by_cases hold : e ∈ sm.table
            · exact .inl hold
            · refine .inr ((h₄ e.1 e.2).mpr ?_)
              have heq : e = (rspro2bankSlot b, rspro2clientSlot client) := by
                unfold tableCreate at he
                split_ifs at he with h1 h2
                · exact absurd he hold
                · exact absurd (List.mem_filter.mp he).1 hold
                · rcases List.mem_append.mp he with he | he
                  · exact absurd (List.mem_filter.mp he).1 hold
                  · exact List.mem_singleton.mp he
              subst heq
              exact ⟨rfl, rfl, hold, he⟩
          · obtain ⟨rfl, hne, hb⟩ := (h₃ b' c').mp hn
            rw [h₂]
            intro he
            have hnew : (rspro2bankSlot b, rspro2clientSlot client) ∉ sm.table := fun hm =>
              hne (Prod.mk.inj (h.table_bank hb hm rfl)).2
            unfold tableCreate at he
            rw [if_neg hnew] at he
            split_ifs at he
            · simpa using (List.mem_filter.mp he).2
            · rcases List.mem_append.mp he with he | he
              · simpa using (List.mem_filter.mp he).2
              · exact hne (Prod.mk.inj (List.mem_singleton.mp he)).2
      | _ => exact ⟨h, fun e he => .inl he, fun b c hn => by cases hn⟩
  | removeMappingReq client b =>
      simp only [bankdSrvcHandleRx]
      cases bank.check b with
      | ok =>
          obtain ⟨h₁, h₂, h₃, _⟩ :=
            removeMapping_spec h (rspro2bankSlot b) (rspro2clientSlot client)
          refine ⟨h₁, fun e he => .inl ?_, fun b' c' hn => ?_⟩
          · rw [h₂] at he
            exact (List.mem_filter.mp he).1
          · obtain ⟨rfl, rfl, _⟩ := (h₃ b' c').mp hn
            rw [h₂]
            intro he
            simpa using (List.mem_filter.mp he).2
      | _ => exact ⟨h, fun e he => .inl he, fun b c hn => by cases hn⟩
  | resetStateReq =>
      obtain ⟨hw, ht⟩ := h.slotmapDelAll
      refine ⟨hw, fun e he => ?_, fun b c hn => ?_⟩
      · rw [show (bank.bankdSrvcHandleRx sm .resetStateReq).slotmaps = sm.slotmapDelAll from rfl,
          ht] at he
        cases he
      · simp [bankdSrvcHandleRx] at hn
  | _ => exact ⟨h, fun e he => .inl he, fun b c hn => by cases hn⟩

end BankCfg

namespace Bankd

variable {d d' : Bankd} {re : Regex}

/-- The worker that `SIGMAPDEL` for a bank slot is sent to. -/
def signalled (ws : List Worker) (bs : BankSlot) : Option ℕ :=
  ws.findIdx? fun w => decide (bs = w.slot)

/-- The condition on a step.  A PDU removes a mapping only if each worker that holds it is the one
to be signalled; `SIGMAPDEL` is not delivered to a worker that is about to take the very mapping the
signal is about and is not mapped yet; and `MAPPED` or `MAPPED_CARD` are not set over `UNMAPPED`. -/
def revokes (d : Bankd) : Label → Bool
  | .main pdu => (d.bank.bankdSrvcHandleRx d.slotmaps pdu).notices.all fun
      | .mapDel bs cs => (List.range d.workers.length).all fun i =>
          (d.workers[i]?).all fun w => !w.holds bs cs || decide (signalled d.workers bs = some i)
      | _ => true
  | .signal i (.mapDel n) => (d.workers[i]?).all fun w => w.state.geMapped ||
      (match w.pc with
      | .found bs _ => decide (d.revoked (bs, w.clslot) ≠ some n)
      | .assigned _ => decide (d.revoked (w.slot, w.clslot) ≠ some n)
      | _ => true)
  | .signal _ .mapAdd => true
  | .worker i _ => (d.workers[i]?).all fun w =>
      match w.pc with
      | .assigned _ => decide (w.state ≠ .connClientUnmapped)
      | .opened _ => decide (w.state ≠ .connClientUnmapped)
      | _ => true

/-! ### Signals -/

theorem mem_kill {p : ℕ → List Signal} {i j : ℕ} {sig sig' : Signal} (h : sig ∈ p i) :
    sig ∈ kill p j sig' i := by
  unfold kill
  by_cases e : i = j
  · subst e
    rw [Function.update_self]
    exact List.mem_append_left _ h
  · rw [Function.update_of_ne e]
    exact h

theorem mem_sendSignalToWorker {ws : List Worker} {p : ℕ → List Signal} {bs : Option BankSlot}
    {cs : Option ClientSlot} {i : ℕ} {sig sig' : Signal} (h : sig ∈ p i) :
    sig ∈ sendSignalToWorker ws p bs cs sig' i := by
  unfold sendSignalToWorker
  generalize ws.findIdx? _ = o
  cases o with
  | none => exact h
  | some j => exact mem_kill h

theorem mem_notify {n : ℕ} {ws : List Worker} {p : ℕ → List Signal} {x : Notice} {i : ℕ}
    {sig : Signal} (h : sig ∈ p i) : sig ∈ notify n ws p x i := by
  cases x with
  | mapDel bs cs => exact mem_sendSignalToWorker h
  | mapAdd bs cs => exact mem_sendSignalToWorker h
  | allDel =>
      have key : ∀ (js : List ℕ) (p : ℕ → List Signal), sig ∈ p i →
          sig ∈ js.foldl (fun p j => kill p j (.mapDel n)) p i := by
        intro js
        induction js with
        | nil => exact fun _ h => h
        | cons j js ih => exact fun p h => ih _ (mem_kill h)
      exact key _ p h

theorem mem_foldl_notify {n : ℕ} {ws : List Worker} {i : ℕ} {sig : Signal} :
    ∀ (xs : List Notice) (p : ℕ → List Signal), sig ∈ p i → sig ∈ xs.foldl (notify n ws) p i
  | [], _, h => h
  | _ :: xs, _, h => mem_foldl_notify xs _ (mem_notify h)

theorem mem_foldl_of_signalled {n : ℕ} {ws : List Worker} {bs : BankSlot} {cs : ClientSlot} {i : ℕ}
    (hs : signalled ws bs = some i) :
    ∀ (xs : List Notice) (p : ℕ → List Signal), .mapDel bs cs ∈ xs →
      .mapDel n ∈ xs.foldl (notify n ws) p i
  | [], _, hm => by cases hm
  | x :: xs, p, hm => by
      rcases List.mem_cons.mp hm with rfl | hm
      · refine mem_foldl_notify xs _ ?_
        have hf : (ws.findIdx? fun w => (some bs).all (fun b => decide (b = w.slot)) &&
            (none : Option ClientSlot).all fun c => decide (c = w.clslot)) = some i := by
          rw [← hs]
          exact congrArg (ws.findIdx? ·) (funext fun w => Bool.and_true _)
        show .mapDel n ∈ sendSignalToWorker ws p (some bs) none (.mapDel n) i
        rw [sendSignalToWorker, hf]
        simp [kill]
      · exact mem_foldl_of_signalled hs xs _ hm

/-! ### The invariant -/

/-- Mappings of the table are not revoked, and a worker that holds a revoked mapping has the signal
for it pending. -/
structure Revoking (d : Bankd) : Prop where
  wf : d.slotmaps.Wf
  live : ∀ e ∈ d.slotmaps.table, d.revoked e = none
  held : ∀ (i : ℕ) (w : Worker), d.workers[i]? = some w → ∀ bs cs n, w.holds bs cs = true →
    d.revoked (bs, cs) = some n → .mapDel n ∈ d.pending i

theorem revoking_main (h : d.Revoking) {pdu : RsproPDU} (hc : revokes d (.main pdu) = true) :
    (d.handle pdu).Revoking := by
  obtain ⟨hwf, hadd, hdel⟩ := d.bank.bankdSrvcHandleRx_spec h.wf pdu
  refine ⟨hwf, fun e he => ?_, fun i w hw bs cs n hh hr => ?_⟩
  · by_cases hm : .mapAdd e.1 e.2 ∈ (d.bank.bankdSrvcHandleRx d.slotmaps pdu).notices
    · exact if_pos hm
    · refine (if_neg hm).trans ((if_neg fun hd => hdel e.1 e.2 hd he).trans (h.live e ?_))
      exact (hadd e he).resolve_right hm
  · have hw : d.workers[i]? = some w := hw
    have hr : (if .mapAdd bs cs ∈ (d.bank.bankdSrvcHandleRx d.slotmaps pdu).notices then none
      else if .mapDel bs cs ∈ (d.bank.bankdSrvcHandleRx d.slotmaps pdu).notices then some d.serial
      else d.revoked (bs, cs)) = some n := hr
    split_ifs at hr with h₁ h₂
    · obtain rfl := Option.some.inj hr
      refine mem_foldl_of_signalled ?_ _ _ h₂
      have hall := List.all_eq_true.mp hc _ h₂
      have hi : i < d.workers.length := (List.getElem?_eq_some_iff.mp hw).1
      have := List.all_eq_true.mp hall i (List.mem_range.mpr hi)
      simpa [hw, hh] using this
    · exact mem_foldl_notify _ _ (h.held i w hw bs cs n hh hr)

theorem Revoking.set (h : d.Revoking) {i : ℕ} {w : Worker} (hs : d'.slotmaps = d.slotmaps)
    (hr : d'.revoked = d.revoked) (hws : d'.workers = d.workers.set i w)
    (hp : ∀ j, j ≠ i → d'.pending j = d.pending j)
    (hw : ∀ bs cs n, w.holds bs cs = true → d.revoked (bs, cs) = some n →
      .mapDel n ∈ d'.pending i) : d'.Revoking := by
  refine ⟨hs ▸ h.wf, by rw [hs, hr]; exact h.live, fun j u hu bs cs n hh hn => ?_⟩
  rw [hr] at hn
  rw [hws, List.getElem?_set] at hu
  split_ifs at hu with h₁ h₂
  · obtain rfl := Option.some.inj hu
    exact h₁ ▸ hw bs cs n hh hn
  · rw [hp j (Ne.symm h₁)]
    exact h.held j u hu bs cs n hh hn

theorem holds_unmapped {w : Worker} (h : w.state = .connClientUnmapped) (bs : BankSlot)
    (cs : ClientSlot) : w.holds bs cs = false := by
  rw [Bool.eq_false_iff]
  intro hh
  obtain ⟨_, ⟨_, hne⟩ | ⟨_, _, hne⟩ | ⟨hm, _⟩⟩ := holdsAt_iff.mp hh
  · exact hne h
  · exact hne h
  · have hm : w.state.mapped = true := hm
    rw [h] at hm
    cases hm

/-- A worker that is not mapped holds only the mapping it is about to take. -/
theorem holds_of_not_geMapped {w : Worker} (h : w.state.geMapped = false) {bs : BankSlot}
    {cs : ClientSlot} (hh : w.holds bs cs = true) : w.clslot = cs ∧
      ((∃ c, w.pc = .found bs c) ∨ (∃ c, w.pc = .assigned c) ∧ w.slot = bs) := by
  obtain ⟨hcs, ⟨hpc, _⟩ | ⟨hpc, hs, _⟩ | ⟨hm, _⟩⟩ := holdsAt_iff.mp hh
  · exact ⟨hcs, .inl hpc⟩
  · exact ⟨hcs, .inr ⟨hpc, hs⟩⟩
  · have hge := WorkerState.geMapped_of_mapped (s := w.state) hm
    rw [h] at hge
    cases hge

theorem revoking_signal (h : d.Revoking) {i : ℕ} {sig : Signal} {w : Worker}
    (hc : revokes d (.signal i sig) = true) (hw : d.workers[i]? = some w) :
    Revoking { d.setWorker i (w.handleSig sig) with
      pending := Function.update d.pending i ((d.pending i).erase sig) } := by
  refine h.set rfl rfl rfl (fun j hj => Function.update_of_ne hj _ _) fun bs cs n hh hr => ?_
  show .mapDel n ∈ Function.update d.pending i ((d.pending i).erase sig) i
  rw [Function.update_self]
  cases sig with
  | mapAdd => exact (List.mem_erase_of_ne (by simp)).mpr (h.held i w hw bs cs n hh hr)
  | mapDel m =>
      have hh : w.handleSigMapdel.holds bs cs = true := hh
      cases hst : w.state.geMapped with
      | true =>
          -- the handler unmaps the worker, which then holds nothing
          have hun : w.handleSigMapdel.state = .connClientUnmapped := by
            rw [Worker.handleSigMapdel, hst]
            rfl
          rw [holds_unmapped hun] at hh
          cases hh
      | false =>
          have hsame : w.handleSigMapdel = w := by
            rw [Worker.handleSigMapdel, hst]
            rfl
          rw [hsame] at hh
          have hne : n ≠ m := by
            intro e
            obtain ⟨rfl, hpc⟩ := holds_of_not_geMapped hst hh
            rcases hpc with ⟨c, hpc⟩ | ⟨⟨c, hpc⟩, rfl⟩
            · simp [revokes, hw, hst, hpc, hr, e] at hc
            · simp [revokes, hw, hst, hpc, hr, e] at hc
          exact (List.mem_erase_of_ne (by simpa using hne)).mpr (h.held i w hw bs cs n hh hr)

theorem mem_table_of_byClient {bs : BankSlot} {cs : ClientSlot} (h : d.byClient cs = some bs) :
    (bs, cs) ∈ d.slotmaps.table := by
  obtain ⟨m, hm, hb⟩ := Option.bind_eq_some_iff.mp h
  obtain ⟨x, hx, rfl⟩ := Option.map_eq_some_iff.mp hb
  obtain ⟨hmem, y, hy, rfl⟩ := d.slotmaps.slotmapByClient_some hm
  obtain rfl := Option.some.inj (hx.symm.trans hy)
  exact Slotmaps.mem_table.mpr ⟨m, hmem, x, hx, rfl⟩

/-- What a worker holds after a move, it held before or has just found in the table. -/
theorem holds_move {i : ℕ} {act : Act} {w : Worker} {pc : Pc} {k : Worker.Core}
    (hc : revokes d (.worker i act) = true) (hw : d.workers[i]? = some w)
    (hop : Opening w.pc w.core) (hm : Worker.Move (d.view re i w) w pc k) {bs : BankSlot}
    {cs : ClientSlot} (hh : holdsAt pc k bs cs = true) :
    w.holds bs cs = true ∨ (bs, cs) ∈ d.slotmaps.table := by
  simp only [revokes, hw, Option.all_some] at hc
  obtain ⟨hcs, hor⟩ := holdsAt_iff.mp hh
  have mapped : w.clslot = cs → w.state.mapped = true → w.slot = bs → w.holds bs cs = true :=
    fun h₁ h₂ h₃ => holdsAt_iff.mpr ⟨h₁, .inr (.inr ⟨h₂, h₃⟩)⟩
  cases hm with
  | boot hpc => simp [WorkerState.mapped] at hor
  | accept hpc => simp [WorkerState.mapped] at hor
  | quiet ho =>
      rcases hor with ⟨⟨c, rfl⟩, _⟩ | ⟨⟨c, rfl⟩, _⟩ | ⟨hm, hs⟩
      · exact ho.elim
      · exact ho.elim
      · exact .inl (mapped hcs hm hs)
  | retry c hst =>
      rcases hor with ⟨⟨c, e⟩, _⟩ | ⟨⟨c, e⟩, _⟩ | ⟨hm, hs⟩
      · cases e
      · cases e
      · exact .inl (mapped hcs hm hs)
  | identify cs hst => simp [WorkerState.mapped] at hor
  | missing c hb => simp [WorkerState.mapped] at hor
  | @found b c hpc hb =>
      rcases hor with ⟨⟨c, e⟩, _⟩ | ⟨⟨c, e⟩, _⟩ | ⟨hm, hs⟩
      · obtain ⟨rfl, _⟩ := Pc.found.inj e
        subst hcs
        exact .inr (mem_table_of_byClient hb)
      · cases e
      · exact .inl (mapped hcs hm hs)
  | @assign b c hpc =>
      -- the slot assigned is the one found, whichever clause holds
      have hboth : b = bs ∧ w.state ≠ .connClientUnmapped := by
        rcases hor with ⟨⟨c, e⟩, _⟩ | ⟨_, hs, hne⟩ | ⟨hm, hs⟩
        · cases e
        · exact ⟨hs, hne⟩
        · refine ⟨hs, fun e => ?_⟩
          have hm : w.state.mapped = true := hm
          rw [e] at hm
          cases hm
      obtain ⟨rfl, hne⟩ := hboth
      exact .inl (holdsAt_iff.mpr ⟨hcs, .inl ⟨⟨c, hpc⟩, hne⟩⟩)
  | @map c hpc =>
      simp only [hpc, decide_eq_true_eq] at hc
      rcases hor with ⟨⟨c, e⟩, _⟩ | ⟨⟨c, e⟩, _⟩ | ⟨_, hs⟩
      · cases e
      · cases e
      · exact .inl (holdsAt_iff.mpr ⟨hcs, .inr (.inl ⟨⟨c, hpc⟩, hs, hc⟩)⟩)
  | name hpc hst hn =>
      rcases hor with ⟨⟨c, e⟩, _⟩ | ⟨⟨c, e⟩, _⟩ | ⟨hm, hs⟩
      · cases e
      · cases e
      · exact .inl (mapped hcs hm hs)
  | driver hpc hn hh' hpc' =>
      rcases hor with ⟨⟨c, rfl⟩, _⟩ | ⟨⟨c, rfl⟩, _⟩ | ⟨hm, hs⟩
      · rcases hpc' with ⟨e, _⟩ | e <;> cases e
      · rcases hpc' with ⟨e, _⟩ | e <;> cases e
      · exact .inl (mapped hcs hm hs)
  | @card c hpc =>
      simp only [hpc, decide_eq_true_eq] at hc
      have hst : w.state = .connClientMapped := (hop c (.inr hpc)).resolve_right hc
      rcases hor with ⟨⟨c, e⟩, _⟩ | ⟨⟨c, e⟩, _⟩ | ⟨_, hs⟩
      · cases e
      · cases e
      · exact .inl (mapped hcs (by rw [hst]; rfl) hs)
  | cleanup hpc => simp [WorkerState.mapped] at hor

theorem revoking_worker (h : d.Revoking) {i idx : ℕ} {act : Act} {w w' : Worker}
    (hc : revokes d (.worker i act) = true) (hw : d.workers[i]? = some w)
    (hop : Opening w.pc w.core) (hm : Worker.Move (d.view re i w) w w'.pc w'.core) :
    Revoking { d.setWorker i w' with nextSlotIdx := idx } := by
  refine h.set rfl rfl rfl (fun j _ => rfl) fun bs cs n hh hr => ?_
  rcases holds_move hc hw hop hm hh with hh | he
  · exact h.held i w hw bs cs n hh hr
  · rw [h.live _ he] at hr
    cases hr

/-- A step that meets the condition keeps the invariant. -/
theorem revoking_step (h : d.Revoking) (hop : ∀ w ∈ d.workers, Opening w.pc w.core) {l : Label}
    (hc : revokes d l = true) (hst : (lts re).step d l d') : d'.Revoking := by
  rcases next_cases hst with ⟨pdu, rfl, rfl⟩ | ⟨i, sig, w, rfl, hw, _, _, rfl⟩ |
    ⟨i, act, w, w', rfl, hw, hs, rfl⟩
  · exact revoking_main h hc
  · exact revoking_signal h hc hw
  · exact revoking_worker h hc hw (hop w (List.mem_of_getElem? hw)) (Worker.step_move hs)

theorem revoking_initial (bank : BankCfg) (names : List (BankSlot × String)) (ki : KiProxy) :
    (initial bank names ki).Revoking :=
  ⟨Slotmaps.wf_empty, fun e he => (by cases he), fun i w hw bs cs n _ hr => (by cases hr)⟩

/-- A worker that is mapped to a revoked mapping has the signal pending. -/
theorem Revoking.not_mapped (h : d.Revoking) {bs : BankSlot} {cs : ClientSlot} {n : ℕ}
    (hr : d.revoked (bs, cs) = some n) (hp : ∀ i < d.workers.length, .mapDel n ∉ d.pending i) :
    ∀ w ∈ d.workers, ¬(w.state.mapped = true ∧ w.slot = bs ∧ w.clslot = cs) := by
  rintro w hw ⟨hm, hs, hcs⟩
  obtain ⟨i, hi⟩ := List.mem_iff_getElem?.mp hw
  refine hp i (List.getElem?_eq_some_iff.mp hi).1 ?_
  exact h.held i w hi bs cs n (holdsAt_iff.mpr ⟨hcs, .inr (.inr ⟨hm, hs⟩)⟩) hr

/-- Worker 0 has served bank slot 1:0 before and is idle again; the next client is served by
worker 1.  Then the mapping is removed, and the signal goes to worker 0. -/
def staleRun : List Label :=
  servedRun ++ [.worker 0 (.select .error), .worker 0 (.cont (fineIo []))] ++ begins 1 ++
    identifies 1 ⟨5, 0⟩ ++ [.main (.removeMappingReq ⟨5, 0⟩ ⟨1, 0⟩), .signal 0 (.mapDel 1),
      .worker 1 (.select .readable)]

end Bankd
end Remsim
