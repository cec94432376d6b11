import Remsim.Revocation

/-! # Signals within the handling of a TPDU

For `Process` the handling of a TPDU is one step.  Here it is two: `worker_handle_tpduModemToCard()`
makes its checks, and then it transceives and answers.  The other threads go on in between, and a
signal can be delivered.  What the handler reads again after the checks is read in the second step.

Every run of the process is such a run (`reach_split`), and the two steps in a row are the one of the
process (`check_transceive`).  Revocation is effective in these runs as well, unless `SIGMAPDEL` is
delivered between the two steps (`transceives_not_revoked`). -/

namespace Remsim

/-- The arguments of a TPDU message. -/
structure TpduArgs where
  src : ClientSlotT
  dst : BankSlotT
  data : List UInt8
deriving DecidableEq, Repr

/-- The process, and the TPDUs that workers have checked and not transceived yet. -/
structure Split where
  bankd : Bankd
  checked : ℕ → Option TpduArgs

/-- The transceive of a TPDU that has passed the checks. -/
def Bankd.checkedTransceive (d : Bankd) (i : ℕ) (w : Worker) (t : TpduArgs) : Option Transceive :=
  if d.kiProxied w t.data then
    (d.kiProxyWorker i w).map fun p => ⟨rspro2bankSlot t.dst, rspro2clientSlot t.src, p.hCard⟩
  else some ⟨rspro2bankSlot t.dst, rspro2clientSlot t.src, w.hCard⟩

namespace Split

/-- A step of the process, other than the handling of a TPDU that passes the checks, the checks of
such a TPDU, and the rest of its handling. -/
inductive Label where
  | whole (l : Bankd.Label)
  | check (i : ℕ) (t : TpduArgs)
  | transceive (i : ℕ) (io : Io)
deriving DecidableEq, Repr

variable (f : Split)

/-- The worker of a step is not within the handling of a TPDU, and does not begin with one. -/
def isWhole : Bankd.Label → Bool
  | .worker i act => (f.checked i).isNone &&
      (match act with
      | .recv (some (.tpduModemToCard src dst _)) _ =>
          (f.bankd.workers[i]?).all fun w => !Bankd.tpduAccepted w src dst
      | _ => true)
  | _ => true

/-- The successor state, if the step can happen. -/
def next (re : Regex) : Label → Option Split
  | .whole l => if f.isWhole l then (f.bankd.next re l).map fun d => { f with bankd := d } else none
  | .check i t =>
      match f.bankd.workers[i]? with
      | none => none
      | some w =>
          if f.checked i = none ∧ w.pc = .read ∧ Bankd.tpduAccepted w t.src t.dst then
            some { f with checked := Function.update f.checked i (some t) }
          else none
  | .transceive i io =>
      match f.bankd.workers[i]?, f.checked i with
      | some w, some t =>
          let resp := (f.bankd.checkedTransceive i w t).bind fun _ => io.transmit
          some {
            bankd := { f.bankd.setWorker i (w.handleTpduModemToCard t.src t.dst io resp) with
              nextSlotIdx :=
                if f.bankd.kiProxied w t.data then f.bankd.kiProxySelect.2
                else f.bankd.nextSlotIdx }
            checked := Function.update f.checked i none }
      | _, _ => none

/-- The transceives of a step. -/
def transceives : Label → List Transceive
  | .transceive i _ =>
      match f.bankd.workers[i]?, f.checked i with
      | some w, some t => (f.bankd.checkedTransceive i w t).toList
      | _, _ => []
  | _ => []

/-- The state before anything was checked. -/
def ofBankd (d : Bankd) : Split := ⟨d, fun _ => none⟩

/-- The transition system. -/
def lts (re : Regex) : Transition.Lts Split Label :=
  Transition.ofFun (fun f => ∃ bank names ki, f = ofBankd (Bankd.initial bank names ki)) (next · re)

/-- The condition on a step: `revokes`, and no `SIGMAPDEL` between the checks and the transceive. -/
def revokes : Label → Bool
  | .whole l => f.bankd.revokes l &&
      (match l with
      | .signal i (.mapDel _) => (f.checked i).isNone
      | _ => true)
  | _ => true

variable {f} {f' : Split} {re : Regex} {i : ℕ} {w : Worker} {t : TpduArgs}

/-! ### The two steps in a row -/

theorem tpduTransceive_of_accepted {d : Bankd} (h : Bankd.tpduAccepted w t.src t.dst = true) :
    d.tpduTransceive i w t.src t.dst t.data = d.checkedTransceive i w t := by
  obtain ⟨-, hs, hc⟩ := Bankd.tpduAccepted_iff.mp h
  rw [Bankd.tpduTransceive, if_pos h, Bankd.checkedTransceive, hs, hc]

/-- **The checks and the transceive in a row are the step of the process.** -/
theorem check_transceive {d d' : Bankd} {io : Io} (hw : d.workers[i]? = some w)
    (ha : Bankd.tpduAccepted w t.src t.dst = true)
    (h : d.next re (.worker i (.recv (some (.tpduModemToCard t.src t.dst t.data)) io)) = some d') :
    ∃ f, (ofBankd d).next re (.check i t) = some f ∧
      f.next re (.transceive i io) = some (ofBankd d') := by
  simp only [Bankd.next, hw, Worker.step] at h
  obtain ⟨w', hs, rfl⟩ := Option.map_eq_some_iff.mp h
  obtain ⟨hpc, hs⟩ := Option.ite_none_right_eq_some.mp hs
  obtain rfl := Option.some.inj hs
  refine ⟨⟨d, Function.update (fun _ => none) i (some t)⟩, ?_, ?_⟩
  · simp only [next, ofBankd, hw]
    rw [if_pos ⟨trivial, hpc, ha⟩]
  · simp only [next, hw, Function.update_self, Function.update_idem, ofBankd,
      Option.some.injEq, Split.mk.injEq]
    refine ⟨?_, Function.update_eq_self i _⟩
    rw [← tpduTransceive_of_accepted ha]
    simp only [Worker.handleRspro, Bankd.view, Bankd.nextIdx, hpc, ha, true_and]

theorem eq_recv_of_not_isWhole {d : Bankd} {l : Bankd.Label}
    (h : ¬(ofBankd d).isWhole l = true) : ∃ i w, ∃ t : TpduArgs, ∃ io,
      l = .worker i (.recv (some (.tpduModemToCard t.src t.dst t.data)) io) ∧
        d.workers[i]? = some w ∧ Bankd.tpduAccepted w t.src t.dst = true := by
  cases l with
  | main pdu => exact absurd rfl h
  | signal i sig => exact absurd rfl h
  | worker i act =>
      simp only [isWhole, ofBankd, Option.isNone_none, Bool.true_and] at h
      split at h
      · rename_i src dst data io
        cases hw : d.workers[i]? with
        | none =>
            rw [hw] at h
            exact absurd rfl h
        | some w =>
            rw [hw, Option.all_some, Bool.not_eq_true, Bool.not_eq_false'] at h
            exact ⟨i, w, ⟨src, dst, data⟩, io, rfl, hw, h⟩
      · exact absurd rfl h

/-- A step of the process is one step, or two. -/
theorem steps_split {d d' : Bankd} {l : Bankd.Label} (hc : d.revokes l = true)
    (h : (Bankd.lts re).step d l d') :
    (lts re).Steps (fun f l => f.revokes l = true) (ofBankd d) (ofBankd d') := by
  by_cases hwhole : (ofBankd d).isWhole l = true
  · refine Transition.Lts.Steps.single (i := .whole l) ?_ ?_
    · show (d.revokes l && _) = true
      rw [hc, Bool.true_and]
      split <;> rfl
    · show (if (ofBankd d).isWhole l then _ else _) = _
      rw [if_pos hwhole]
      exact Option.map_eq_some_iff.mpr ⟨d', h, rfl⟩
  · obtain ⟨i, w, t, io, rfl, hw, ha⟩ := eq_recv_of_not_isWhole hwhole
    obtain ⟨f, h₁, h₂⟩ := check_transceive hw ha h
    have hcheck : (lts re).Steps (fun f l => f.revokes l = true) (ofBankd d) f :=
      .single (i := .check i t) rfl h₁
    exact .tail (i := .transceive i io) hcheck rfl h₂

/-- **Every run of the process is a run in which the two steps stand in a row.** -/
theorem reach_split {d : Bankd}
    (h : (Bankd.lts re).Reach (fun d l => d.revokes l = true) d) :
    (lts re).Reach (fun f l => f.revokes l = true) (ofBankd d) := by
  refine h.map ofBankd ?_ fun d l d' _ hc hst => steps_split hc hst
  rintro _ ⟨bank, names, ki, rfl⟩
  exact ⟨bank, names, ki, rfl⟩

/-! ### Revocation -/

/-- The process keeps its invariants, and a worker with a checked TPDU has the mapping. -/
structure Holding (f : Split) : Prop where
  opening : ∀ w ∈ f.bankd.workers, Bankd.Opening w.pc w.core
  revoking : f.bankd.Revoking
  checked : ∀ i t, f.checked i = some t → ∃ w, f.bankd.workers[i]? = some w ∧ w.pc = .read ∧
    Bankd.tpduAccepted w t.src t.dst = true

theorem Holding.signal (h : f.Holding) {sig : Signal} (hw : f.bankd.workers[i]? = some w)
    (hc : f.revokes (.whole (.signal i sig)) = true) (j : ℕ) (t : TpduArgs)
    (ht : f.checked j = some t) :
    ∃ u, (f.bankd.setWorker i (w.handleSig sig)).workers[j]? = some u ∧ u.pc = .read ∧
      Bankd.tpduAccepted u t.src t.dst = true := by
  obtain ⟨u, hu, hpc, ha⟩ := h.checked j t ht
  rcases eq_or_ne i j with rfl | hij
  · cases sig with
    | mapDel n => simp [revokes, ht] at hc
    | mapAdd =>
        obtain rfl := Option.some.inj (hw.symm.trans hu)
        have hi : i < f.bankd.workers.length := (List.getElem?_eq_some_iff.mp hw).1
        exact ⟨w, List.getElem?_set_self hi, hpc, ha⟩
  · exact ⟨u, (List.getElem?_set_ne hij).trans hu, hpc, ha⟩

theorem Holding.whole (h : f.Holding) {l : Bankd.Label} {d : Bankd}
    (hc : f.revokes (.whole l) = true) (hwhole : f.isWhole l = true)
    (hst : (Bankd.lts re).step f.bankd l d) : Holding { f with bankd := d } := by
  have hrev : f.bankd.revokes l = true := ((Bool.and_eq_true _ _).mp hc).1
  refine ⟨Bankd.workers_step (P := fun _ => Bankd.Opening) (fun _ _ => Bankd.Opening.mapdel)
    (fun _ _ _ _ _ _ _ _ => Bankd.Opening.move) h.opening (C := Transition.Lts.Any) trivial hst,
    Bankd.revoking_step h.revoking h.opening hrev hst, fun j t ht => ?_⟩
  replace ht : f.checked j = some t := ht
  rcases Bankd.next_cases hst with ⟨pdu, rfl, rfl⟩ | ⟨i, sig, w, rfl, hw, -, -, rfl⟩ |
    ⟨i, act, w, w', rfl, hw, -, rfl⟩
  · exact h.checked j t ht
  · exact h.signal hw hc j t ht
  · obtain ⟨u, hu, hpc, ha⟩ := h.checked j t ht
    rcases eq_or_ne i j with rfl | hij
    · have hnone : (f.checked i).isNone = true := ((Bool.and_eq_true _ _).mp hwhole).1
      rw [ht] at hnone
      cases hnone
    · exact ⟨u, (List.getElem?_set_ne hij).trans hu, hpc, ha⟩

/-- The rest of the handling is a quiet move of the worker. -/
theorem Holding.transceive (re : Regex) (h : f.Holding) {io : Io} (hw : f.bankd.workers[i]? = some w)
    (ht : f.checked i = some t) {resp : Option (List UInt8)} {idx : ℕ} :
    Holding ⟨{ f.bankd.setWorker i (w.handleTpduModemToCard t.src t.dst io resp) with
      nextSlotIdx := idx }, Function.update f.checked i none⟩ := by
  obtain ⟨u, hu, hpc, -⟩ := h.checked i t ht
  obtain rfl := Option.some.inj (hw.symm.trans hu)
  have hquiet : (w.handleTpduModemToCard t.src t.dst io resp).pc.inLoop ∧
      (w.handleTpduModemToCard t.src t.dst io resp).core = w.core := by
    cases resp with
    | none => exact ⟨trivial, rfl⟩
    | some data =>
        exact ⟨Worker.inLoop_again, Worker.core_again.trans (Worker.core_sendRspro _ _)⟩
  have hmove : Worker.Move (f.bankd.view re i w) w
      (w.handleTpduModemToCard t.src t.dst io resp).pc
      (w.handleTpduModemToCard t.src t.dst io resp).core := by
    rw [hquiet.2]
    exact .quiet hquiet.1
  have hop := h.opening w (List.mem_of_getElem? hw)
  have hc : f.bankd.revokes (.worker i (.recv none io)) = true := by
    simp [Bankd.revokes, hw, hpc]
  refine ⟨fun v hv => ?_, Bankd.revoking_worker h.revoking hc hw hop hmove, fun j s hs => ?_⟩
  · rcases Bankd.mem_setWorker hv with rfl | hv
    · exact hop.move hmove
    · exact h.opening v hv
  · have hs : Function.update f.checked i none j = some s := hs
    rcases eq_or_ne j i with rfl | hji
    · rw [Function.update_self] at hs
      cases hs
    · rw [Function.update_of_ne hji] at hs
      obtain ⟨v, hv, hpc', ha⟩ := h.checked j s hs
      exact ⟨v, (List.getElem?_set_ne (Ne.symm hji)).trans hv, hpc', ha⟩

theorem Holding.step (h : f.Holding) {l : Label} (hc : f.revokes l = true)
    (hst : (lts re).step f l f') : f'.Holding := by
  have hst : f.next re l = some f' := hst
  cases l with
  | whole l =>
      obtain ⟨hwhole, hst⟩ := Option.ite_none_right_eq_some.mp hst
      obtain ⟨d, hd, rfl⟩ := Option.map_eq_some_iff.mp hst
      exact h.whole hc hwhole hd
  | check i t =>
      simp only [next] at hst
      split at hst
      · cases hst
      · rename_i w hw
        obtain ⟨⟨-, hpc, ha⟩, hst⟩ := Option.ite_none_right_eq_some.mp hst
        obtain rfl := Option.some.inj hst
        refine ⟨h.opening, h.revoking, fun j s hs => ?_⟩
        have hs : Function.update f.checked i (some t) j = some s := hs
        rcases eq_or_ne j i with rfl | hji
        · rw [Function.update_self] at hs
          obtain rfl := Option.some.inj hs
          exact ⟨w, hw, hpc, ha⟩
        · rw [Function.update_of_ne hji] at hs
          exact h.checked j s hs
  | transceive i io =>
      simp only [next] at hst
      split at hst
      · rename_i w t hw ht
        obtain rfl := Option.some.inj hst
        exact h.transceive re hw ht
      · cases hst

theorem reach_holding (h : (lts re).Reach (fun f l => f.revokes l = true) f) : f.Holding := by
  refine h.invariant ?_ fun f l f' hI hc hst => hI.step hc hst
  rintro _ ⟨bank, names, ki, rfl⟩
  refine ⟨fun w hw => ?_, Bankd.revoking_initial bank names ki, fun i t ht => (by cases ht)⟩
  obtain rfl := (List.mem_replicate.mp hw).2
  exact Bankd.Opening.of_not fun c => ⟨by simp [Worker.fresh], by simp [Worker.fresh]⟩

/-- **Revocation is effective also when signals arrive within the handling of a TPDU**, in every run
whose steps all meet `revokes`. -/
theorem transceives_not_revoked (h : (lts re).Reach (fun f l => f.revokes l = true) f)
    {bs : BankSlot} {cs : ClientSlot} {n : ℕ} (hr : f.bankd.revoked (bs, cs) = some n)
    (hp : ∀ i < f.bankd.workers.length, .mapDel n ∉ f.bankd.pending i) :
    (∀ w ∈ f.bankd.workers, ¬(w.state.mapped = true ∧ w.slot = bs ∧ w.clslot = cs)) ∧
      ∀ l, ∀ x ∈ f.transceives l, ¬(x.bank = bs ∧ x.client = cs) := by
  have hI := reach_holding h
  have hw := hI.revoking.not_mapped hr hp
  refine ⟨hw, fun l x hx hbc => ?_⟩
  cases l with
  | whole l => cases hx
  | check i t => cases hx
  | transceive i io =>
      simp only [transceives] at hx
      split at hx
      · rename_i w t hwi ht
        obtain ⟨u, hu, -, ha⟩ := hI.checked i t ht
        obtain rfl := Option.some.inj (hwi.symm.trans hu)
        obtain ⟨hst, hs, hcl⟩ := Bankd.tpduAccepted_iff.mp ha
        have hx' : x.bank = rspro2bankSlot t.dst ∧ x.client = rspro2clientSlot t.src := by
          rw [Option.mem_toList, Bankd.checkedTransceive] at hx
          split_ifs at hx
          · obtain ⟨p, -, rfl⟩ := Option.map_eq_some_iff.mp hx
            exact ⟨rfl, rfl⟩
          · obtain rfl := Option.some.inj hx
            exact ⟨rfl, rfl⟩
        refine hw w (List.mem_of_getElem? hwi) ⟨?_, ?_, ?_⟩
        · rw [hst]
          rfl
        · rw [hs, ← hx'.1, hbc.1]
        · rw [hcl, ← hx'.2, hbc.2]
      · cases hx

/-- The state after a run of the bank of two slots. -/
def after (ls : List Label) : Split :=
  (Transition.exec (fun f => next f Bankd.literal) (ofBankd Bankd.twoSlots) ls).getD
    (ofBankd Bankd.twoSlots)

theorem reach_after {C : Split → Label → Prop} {c : Split → Label → Bool}
    (hc : ∀ f l, c f l = true → C f l) {w : List Label}
    (h : (Transition.exec (fun f => next f Bankd.literal) (ofBankd Bankd.twoSlots) w).isSome = true)
    (ha : Transition.execAll (fun f => next f Bankd.literal) c (ofBankd Bankd.twoSlots) w = true) :
    (lts Bankd.literal).Reach C (after w) :=
  Transition.reach_after_of hc ⟨_, _, _, rfl⟩ h ha

/-- A client is served and sends a TPDU; then its mapping is removed and the signal handled. -/
def answeredRun : List Label :=
  Bankd.servedRun.map .whole ++ [.whole (.worker 0 (.select .readable)),
    .check 0 ⟨⟨5, 0⟩, ⟨1, 0⟩, [0xa0, 0xa4]⟩, .transceive 0 (Bankd.fineIo []),
    .whole (.main (.removeMappingReq ⟨5, 0⟩ ⟨1, 0⟩)), .whole (.signal 0 (.mapDel 1))]

theorem answered_not_revoked :
    (after answeredRun).bankd.revoked (⟨1, 0⟩, ⟨5, 0⟩) = some 1 ∧
      ∀ l, ∀ x ∈ (after answeredRun).transceives l, ¬(x.bank = ⟨1, 0⟩ ∧ x.client = ⟨5, 0⟩) := by
  have hr : (after answeredRun).bankd.revoked (⟨1, 0⟩, ⟨5, 0⟩) = some 1 := by decide
  exact ⟨hr, (transceives_not_revoked
    (reach_after (fun _ _ h => h) (w := answeredRun) (by decide) (by decide)) hr (by decide)).2⟩

/-- The same, but the mapping is removed while the TPDU has been checked only. -/
def lateRun : List Label :=
  Bankd.servedRun.map .whole ++ [.whole (.worker 0 (.select .readable)),
    .check 0 ⟨⟨5, 0⟩, ⟨1, 0⟩, [0xa0, 0xa4]⟩,
    .whole (.main (.removeMappingReq ⟨5, 0⟩ ⟨1, 0⟩)), .whole (.signal 0 (.mapDel 1))]

/-- The signal has been handled, and the TPDU is still transceived. -/
theorem late_transceived :
    (lts Bankd.literal).Reach Transition.Lts.Any (after lateRun) ∧
      (after lateRun).bankd.revoked (⟨1, 0⟩, ⟨5, 0⟩) = some 1 ∧
      (∀ i < (after lateRun).bankd.workers.length, (after lateRun).bankd.pending i = []) ∧
      (after lateRun).transceives (.transceive 0 (Bankd.fineIo [])) =
        [⟨⟨1, 0⟩, ⟨5, 0⟩, some "A"⟩] :=
  ⟨reach_after (c := fun _ _ => true) (fun _ _ _ => trivial) (by decide) (by decide), by decide,
    by decide, by decide⟩

end Split

end Remsim
