import Remsim.Session

/-! # Waking the worker that waits for a mapping

When the main thread of the bankd has created a mapping it signals a worker with `SIGMAPADD`: the
first one in the list whose `clslot` is the client slot of the mapping, whatever state it is in.  A
worker without a client has the client slot 0:0, which is also a legal one, and nothing keeps two
clients from announcing the same slot.  A request for a mapping that exists is answered with success
and signals nobody.

* `wakes_iff`: when the signal reaches a worker that waits, and no worker without a client.
* `wakes_of_single`: it does for a new mapping of any other client slot that one client
  announced. -/

namespace Remsim

/-- The worker waits for a mapping of the client slot. -/
def Worker.waitsFor (w : Worker) (cs : ClientSlot) : Prop :=
  w.state = .connClientWaitMap ∧ w.clslot = cs

namespace Bankd

variable {d : Bankd} {re : Regex} {client : ClientSlotT} {b : BankSlotT} {i : ℕ}

/-! ### Signals -/

/-- Handling a PDU of the server sends `SIGMAPADD` to a worker. -/
def SignalsAdd (d : Bankd) (pdu : RsproPDU) (i : ℕ) : Prop :=
  (d.pending i).count .mapAdd < ((d.handle pdu).pending i).count .mapAdd

theorem count_kill (p : ℕ → List Signal) (i j : ℕ) (sig : Signal) :
    (kill p i sig j).count .mapAdd =
      (p j).count .mapAdd + if i = j ∧ sig = .mapAdd then 1 else 0 := by
  unfold kill
  by_cases hij : i = j
  · subst hij
    rw [Function.update_self, List.count_append, List.count_singleton]
    simp
  · rw [Function.update_of_ne (Ne.symm hij), if_neg fun h => hij h.1, Nat.add_zero]

/-- `SIGMAPADD` is sent to the first worker that matches. -/
theorem count_sendSignalToWorker (ws : List Worker) (p : ℕ → List Signal) (bs : Option BankSlot)
    (cs : Option ClientSlot) (sig : Signal) (i : ℕ) :
    (sendSignalToWorker ws p bs cs sig i).count .mapAdd = (p i).count .mapAdd +
      if (ws.findIdx? fun w => bs.all (· = w.slot) && cs.all (· = w.clslot)) = some i ∧
        sig = .mapAdd then 1 else 0 := by
  unfold sendSignalToWorker
  cases ws.findIdx? fun w => bs.all (· = w.slot) && cs.all (· = w.clslot) with
  | none => simp
  | some j => simp only [count_kill, Option.some.injEq]

/-- The worker that `send_signal_to_worker()` finds for a client slot. -/
def firstWith (d : Bankd) (cs : ClientSlot) : Option ℕ :=
  d.workers.findIdx? fun w => decide (cs = w.clslot)

theorem count_notify_mapAdd (serial : ℕ) (p : ℕ → List Signal) (bs : BankSlot) (cs : ClientSlot)
    (i : ℕ) : (notify serial d.workers p (.mapAdd bs cs) i).count .mapAdd =
      (p i).count .mapAdd + if d.firstWith cs = some i then 1 else 0 := by
  refine (count_sendSignalToWorker d.workers p none (some cs) .mapAdd i).trans ?_
  simp only [firstWith, Option.all_none, Option.all_some, Bool.true_and, and_true]
  congr 1

theorem count_notify_mapDel {ns : List Notice} (h : ∀ n ∈ ns, ∃ bs cs, n = .mapDel bs cs)
    (serial : ℕ) (p : ℕ → List Signal) (i : ℕ) :
    (ns.foldl (notify serial d.workers) p i).count .mapAdd = (p i).count .mapAdd := by
  induction ns generalizing p with
  | nil => rfl
  | cons n ns ih =>
      obtain ⟨⟨bs, cs, rfl⟩, hns⟩ := List.forall_mem_cons.mp h
      rw [List.foldl_cons, ih hns]
      refine (count_sendSignalToWorker d.workers p (some bs) none (.mapDel serial) i).trans ?_
      rw [if_neg fun h => Signal.noConfusion h.2, Nat.add_zero]

/-! ### Requests answered with success -/

/-- The request is answered with success. -/
def AnswersOk (d : Bankd) (pdu : RsproPDU) : Prop :=
  (d.bank.bankdSrvcHandleRx d.slotmaps pdu).resp = some (.createMappingRes .ok)

instance (pdu : RsproPDU) : Decidable (d.AnswersOk pdu) :=
  inferInstanceAs (Decidable (_ = some (RsproPDU.createMappingRes .ok)))

/-- What a request that is answered with success announces: nothing if the mapping exists, and
otherwise the new mapping, after those that gave way. -/
theorem notices_of_ok {sm : Slotmaps} {bank : BankCfg} (h : sm.Wf)
    (hok : (bank.bankdSrvcHandleRx sm (.createMappingReq client b)).resp =
      some (.createMappingRes .ok)) :
    ((rspro2bankSlot b, rspro2clientSlot client) ∈ sm.table ∧
        (bank.bankdSrvcHandleRx sm (.createMappingReq client b)).notices = []) ∨
      ((rspro2bankSlot b, rspro2clientSlot client) ∉ sm.table ∧
        ∃ ns, (∀ n ∈ ns, ∃ bs cs, n = .mapDel bs cs) ∧
          (bank.bankdSrvcHandleRx sm (.createMappingReq client b)).notices =
            ns ++ [.mapAdd (rspro2bankSlot b) (rspro2clientSlot client)]) := by
  have hcheck : bank.check b = .ok := by
    by_contra hne
    simp only [BankCfg.bankdSrvcHandleRx] at hok
    exact hne (RsproPDU.createMappingRes.inj (Option.some.inj hok))
  simp only [BankCfg.bankdSrvcHandleRx, hcheck] at hok ⊢
  generalize rspro2bankSlot b = bs at hok ⊢
  generalize rspro2clientSlot client = cs at hok ⊢
  have hadd : ∀ sm' ns, (BankCfg.addMapping sm' ns bs cs).resp = some (.createMappingRes .ok) →
      (BankCfg.addMapping sm' ns bs cs).notices = ns ++ [.mapAdd bs cs] := by
    intro sm' ns hr
    unfold BankCfg.addMapping at hr ⊢
    cases ha : sm'.slotmapAdd bs cs with
    | none =>
        rw [ha] at hr
        cases hr
    | some r => rfl
  have hnew : .mapAdd bs cs ∈ (BankCfg.createMapping sm bs cs).notices → (bs, cs) ∉ sm.table :=
    fun hm => (((BankCfg.createMapping_spec h bs cs).mapAdd bs cs).mp hm).2.2.1
  unfold BankCfg.createMapping at hok hnew ⊢
  rcases BankCfg.find_bank sm bs with ⟨hf, _⟩ | ⟨m, x, hf, _, _, rfl, hmem⟩
  · simp only [hf] at hok hnew ⊢
    have hn := hadd _ _ hok
    exact .inr ⟨hnew (by rw [hn]; simp), [], by simp, hn⟩
  · simp only [hf] at hok hnew ⊢
    split_ifs at hok hnew ⊢ with hc
    · exact .inl ⟨hc ▸ hmem, rfl⟩
    · have hn := hadd _ _ hok
      exact .inr ⟨hnew (by rw [hn]; simp), _, by simp, hn⟩

theorem reach_wf {C : Bankd → Label → Prop} (h : (lts re).Reach C d) : d.slotmaps.Wf := by
  refine h.invariant (I := fun d => d.slotmaps.Wf) ?_ ?_
  · rintro _ ⟨bank, names, ki, rfl⟩
    exact Slotmaps.wf_empty
  · intro d l d' hwf _ hst
    rcases next_cases hst with ⟨pdu, rfl, rfl⟩ | ⟨i, sig, w, rfl, _, _, _, rfl⟩ |
      ⟨i, act, w, w', rfl, _, _, rfl⟩
    · exact (d.bank.table_bankdSrvcHandleRx hwf pdu).1
    · exact hwf
    · exact hwf

/-- **The signal goes to the first worker with the client slot, if the mapping is new.** -/
theorem signalsAdd_iff {C : Bankd → Label → Prop} (h : (lts re).Reach C d)
    (hok : d.AnswersOk (.createMappingReq client b)) :
    d.SignalsAdd (.createMappingReq client b) i ↔
      (rspro2bankSlot b, rspro2clientSlot client) ∉ d.slotmaps.table ∧
        d.firstWith (rspro2clientSlot client) = some i := by
  have hp : (d.handle (.createMappingReq client b)).pending =
      (d.bank.bankdSrvcHandleRx d.slotmaps (.createMappingReq client b)).notices.foldl
        (notify d.serial d.workers) d.pending := rfl
  unfold SignalsAdd
  rw [hp]
  rcases notices_of_ok (reach_wf h) hok with ⟨hmem, hn⟩ | ⟨hnot, ns, hns, hn⟩
  · rw [hn]
    exact iff_of_false (lt_irrefl _) fun e => e.1 hmem
  · rw [hn, List.foldl_append, List.foldl_cons, List.foldl_nil, count_notify_mapAdd,
      count_notify_mapDel hns]
    split_ifs with hf
    · exact iff_of_true (Nat.lt_succ_self _) ⟨hnot, hf⟩
    · exact iff_of_false (lt_irrefl _) fun e => hf e.2

/-! ### Waking -/

/-- A waiting worker is signalled, if there is one, and no worker without a client is. -/
structure Wakes (d : Bankd) (client : ClientSlotT) (b : BankSlotT) : Prop where
  woken : (∃ w ∈ d.workers, w.waitsFor (rspro2clientSlot client)) →
    ∃ i w, d.workers[i]? = some w ∧ w.waitsFor (rspro2clientSlot client) ∧
      d.SignalsAdd (.createMappingReq client b) i
  notSpent : ∀ i w, d.workers[i]? = some w → d.SignalsAdd (.createMappingReq client b) i →
    w.ident ≠ none

theorem firstWith_isSome {cs : ClientSlot} {w : Worker} (hw : w ∈ d.workers) (hc : w.clslot = cs) :
    ∃ i u, d.firstWith cs = some i ∧ d.workers[i]? = some u ∧ u.clslot = cs := by
  have hsome : (d.firstWith cs).isSome = true := by
    rw [firstWith, List.findIdx?_isSome, List.any_eq_true]
    exact ⟨w, hw, by rw [hc, decide_eq_true_eq]⟩
  obtain ⟨i, hi⟩ := Option.isSome_iff_exists.mp hsome
  obtain ⟨hlt, hu, _⟩ := List.findIdx?_eq_some_iff_getElem.mp hi
  exact ⟨i, d.workers[i], hi, List.getElem?_eq_getElem hlt, (of_decide_eq_true hu).symm⟩

/-- **A request that is answered with success wakes a waiting worker, and no worker without a
client, exactly if** nobody waits when the mapping exists already, and otherwise the first worker
with the client slot has a client and waits if any worker does. -/
theorem wakes_iff (h : (lts re).Reach Transition.Lts.Any d)
    (hok : d.AnswersOk (.createMappingReq client b)) :
    d.Wakes client b ↔
      ((rspro2bankSlot b, rspro2clientSlot client) ∈ d.slotmaps.table →
        ∀ w ∈ d.workers, ¬w.waitsFor (rspro2clientSlot client)) ∧
      ((rspro2bankSlot b, rspro2clientSlot client) ∉ d.slotmaps.table →
        ∀ i w, d.firstWith (rspro2clientSlot client) = some i → d.workers[i]? = some w →
          w.ident ≠ none ∧ ((∃ u ∈ d.workers, u.waitsFor (rspro2clientSlot client)) →
            w.waitsFor (rspro2clientSlot client))) := by
  have hsig : ∀ i, d.SignalsAdd (.createMappingReq client b) i ↔ _ := fun i =>
    signalsAdd_iff h hok
  constructor
  · rintro ⟨hwoken, hspent⟩
    refine ⟨fun hmem w hw hwait => ?_, fun hnot i w hi hw => ⟨?_, fun hwait => ?_⟩⟩
    · obtain ⟨i, _, _, _, hs⟩ := hwoken ⟨w, hw, hwait⟩
      exact ((hsig i).mp hs).1 hmem
    · exact hspent i w hw ((hsig i).mpr ⟨hnot, hi⟩)
    · obtain ⟨j, u, hu, huw, hs⟩ := hwoken hwait
      obtain rfl := Option.some.inj (hi.symm.trans ((hsig j).mp hs).2)
      obtain rfl := Option.some.inj (hw.symm.trans hu)
      exact huw
  · rintro ⟨hold, hnew⟩
    refine ⟨?_, fun i w hw hs => ?_⟩
    · rintro ⟨w, hw, hwait⟩
      by_cases hmem : (rspro2bankSlot b, rspro2clientSlot client) ∈ d.slotmaps.table
      · exact absurd hwait (hold hmem w hw)
      · obtain ⟨i, u, hi, hu, _⟩ := firstWith_isSome hw hwait.2
        exact ⟨i, u, hu, (hnew hmem i u hi hu).2 ⟨w, hw, hwait⟩, (hsig i).mpr ⟨hmem, hi⟩⟩
    · obtain ⟨hnot, hi⟩ := (hsig i).mp hs
      exact (hnew hnot i w hi hw).1

/-! ### One client for each slot -/

/-- A worker has the client slot that was announced on its connection, or 0:0. -/
structure Known (pc : Pc) (k : Worker.Core) : Prop where
  known : (k.ident = none ∧ k.clslot = ⟨0, 0⟩) ∨ k.ident = some k.clslot
  idle : pc = .boot ∨ pc = .accept → k.ident = none

theorem known_move {v : View} {w : Worker} {pc : Pc} {k : Worker.Core} (h : Known w.pc w.core)
    (hm : Worker.Move v w pc k) : Known pc k := by
  have hkeep : ∀ {pc : Pc} {k : Worker.Core}, k.ident = w.ident → k.clslot = w.clslot →
      pc ≠ .boot ∧ pc ≠ .accept → Known pc k := by
    intro pc k hi hc hpc
    refine ⟨?_, fun e => (e.elim hpc.1 hpc.2).elim⟩
    rw [hi, hc]
    exact h.known
  cases hm with
  | boot hpc => exact ⟨h.known, fun _ => h.idle (.inl hpc)⟩
  | accept hpc =>
      refine ⟨.inl ⟨rfl, ?_⟩, fun _ => rfl⟩
      rcases h.known with hk | hk
      · exact hk.2
      · rw [h.idle (.inr hpc)] at hk
        cases hk
  | identify cs hst => exact ⟨.inr rfl, fun e => by simp at e⟩
  | cleanup hpc => exact ⟨.inl ⟨rfl, rfl⟩, fun _ => rfl⟩
  | quiet ho => exact hkeep rfl rfl ⟨fun e => by simp [e, Pc.inLoop] at ho,
      fun e => by simp [e, Pc.inLoop] at ho⟩
  | driver hpc hn hh hor =>
      refine hkeep rfl rfl ?_
      rcases hor with ⟨rfl, _⟩ | rfl <;> simp
  | _ => exact hkeep rfl rfl ⟨by simp, by simp⟩

theorem known_mapdel {w : Worker} (h : Known w.pc w.core) : Known w.pc w.handleSigMapdel.core := by
  unfold Worker.handleSigMapdel
  split_ifs
  · exact ⟨h.known, h.idle⟩
  · exact h

theorem reach_known {C : Bankd → Label → Prop} (h : (lts re).Reach C d) :
    ∀ w ∈ d.workers, Known w.pc w.core :=
  reach_workers (P := fun _ => Known) (fun _ => ⟨.inl ⟨rfl, rfl⟩, fun _ => rfl⟩)
    (fun _ _ => known_mapdel) (fun _ _ _ _ _ _ _ _ => known_move) h

/-- **A new mapping of a client slot other than 0:0, which no two clients have announced, wakes the
worker that waits for it.** -/
theorem wakes_of_single (h : (lts re).Reach Transition.Lts.Any d)
    (hok : d.AnswersOk (.createMappingReq client b))
    (hnew : (rspro2bankSlot b, rspro2clientSlot client) ∉ d.slotmaps.table)
    (h0 : rspro2clientSlot client ≠ ⟨0, 0⟩)
    (hone : ∀ (i j : ℕ) (u w : Worker), d.workers[i]? = some u → d.workers[j]? = some w →
      u.ident = some (rspro2clientSlot client) → w.ident = some (rspro2clientSlot client) → i = j) :
    d.Wakes client b := by
  have hident : ∀ w ∈ d.workers, w.clslot = rspro2clientSlot client →
      w.ident = some (rspro2clientSlot client) := by
    intro w hw hc
    rcases (reach_known h w hw).known with ⟨_, hz⟩ | hi
    · exact absurd (hc.symm.trans hz) h0
    · exact hi.trans (congrArg some hc)
  refine (wakes_iff h hok).mpr ⟨fun hmem => absurd hmem hnew, fun _ i w hi hw => ?_⟩
  obtain ⟨hlt, hu, _⟩ := List.findIdx?_eq_some_iff_getElem.mp hi
  have hwi : w = d.workers[i] := Option.some.inj (hw.symm.trans (List.getElem?_eq_getElem hlt))
  have hwc : w.ident = some (rspro2clientSlot client) :=
    hident w (List.mem_of_getElem? hw) (by rw [hwi]; exact (of_decide_eq_true hu).symm)
  refine ⟨by rw [hwc]; exact Option.some_ne_none _, ?_⟩
  rintro ⟨u, hu, hwait⟩
  obtain ⟨j, hj⟩ := List.mem_iff_getElem?.mp hu
  obtain rfl : i = j := hone i j w u hw hj hwc (hident u hu hwait.2)
  obtain rfl := Option.some.inj (hw.symm.trans hj)
  exact hwait

/-! ### Runs -/

/-- A client announces a slot that has no mapping to worker 1, while worker 0 has no client. -/
def waitingRun (cs : ClientSlotT) : List Label :=
  begins 0 ++ begins 1 ++ receives 1 (some (.connectClientReq .remsimClient (some cs))) ++
    continues 1 2

theorem newMapping_wakes : (after (waitingRun ⟨5, 0⟩)).Wakes ⟨5, 0⟩ ⟨1, 0⟩ := by
  refine (wakes_iff (reach_after (c := fun _ _ => true) (fun _ _ _ => trivial) (by decide)
    (by decide)) (by decide)).mpr ⟨fun hmem => absurd hmem (by decide), fun _ i w hi hw => ?_⟩
  obtain rfl : i = 1 := Option.some.inj (hi.symm.trans (by decide))
  obtain rfl : w = (after (waitingRun ⟨5, 0⟩)).workers.getD 1 Worker.fresh :=
    Option.some.inj (hw.symm.trans (by decide))
  refine ⟨by decide, fun _ => ?_⟩
  unfold Worker.waitsFor
  decide

/-- A client with slot 0:0 waits at worker 1.  The signal for its mapping goes to worker 0, which is
idle. -/
theorem slotZero_notWoken :
    (lts literal).Reach Transition.Lts.Any (after (waitingRun ⟨0, 0⟩)) ∧
      (after (waitingRun ⟨0, 0⟩)).AnswersOk (.createMappingReq ⟨0, 0⟩ ⟨1, 0⟩) ∧
      (∃ w ∈ (after (waitingRun ⟨0, 0⟩)).workers, w.waitsFor ⟨0, 0⟩) ∧
      ¬(after (waitingRun ⟨0, 0⟩)).Wakes ⟨0, 0⟩ ⟨1, 0⟩ := by
  refine ⟨reach_after (c := fun _ _ => true) (fun _ _ _ => trivial) (by decide) (by decide),
    by decide, ?_, fun h => ?_⟩
  · refine ⟨(after (waitingRun ⟨0, 0⟩)).workers.getD 1 Worker.fresh, by decide, ?_⟩
    unfold Worker.waitsFor
    decide
  · refine h.notSpent 0 ((after (waitingRun ⟨0, 0⟩)).workers.getD 0 Worker.fresh) (by decide) ?_
      (by decide)
    unfold SignalsAdd
    decide

end Bankd
end Remsim
