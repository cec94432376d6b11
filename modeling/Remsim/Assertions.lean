import Remsim.Process

/-! # The assertions of a worker (`bankd_main.c`)

A signal can be handled between any two statements of a worker, and its handler writes
`worker->state` and `worker->timeout`.  Here the steps of `Worker.step` are broken up further
(`Spot`): where a state from which `handle_sig_mapdel()` changes anything is stored, where
`worker_open_card()` goes on after its first assertion, and around `select()`, whose timeout is read
before it waits and whose result is acted on after it has returned.  A signal that arrives while the
thread waits in `select()` ends the call with `EINTR`.

Everything the thread reads of the rest of the process may be different in every step.  `step_runs`
and `reach_thread` connect this to the steps of `Worker.step` and to the process. -/

namespace Remsim

/-- Where a thread is within a step of `Worker.step`. -/
inductive Spot where
  /-- At its begin. -/
  | entry
  /-- In `worker_set_state_timeout()`: the state is stored, the timeout is not. -/
  | storing (timeout : ℕ)
  /-- In `worker_open_card()`, past the first assertion. -/
  | asserted
  /-- In `wait_for_fd_or_timeout()` with this timeout, not waiting yet. -/
  | armed (timeout : ℕ)
  /-- Waiting in `select()`. -/
  | blocked (timeout : ℕ)
  /-- `select()` has returned, and nothing was done about it yet. -/
  | woken (r : SelectResult)
deriving DecidableEq, Repr

/-- A worker thread between two statements. -/
structure Thread where
  worker : Worker
  spot : Spot
deriving DecidableEq, Repr

/-- The states in which a worker waits with a timeout. -/
def WorkerState.timed : WorkerState → Bool
  | .connClientWaitMap => true
  | .connClientMapped => true
  | _ => false

namespace Thread

/-- `worker_transceive_loop()` after `select()`; an assertion that fails has no successor. -/
def wake (w : Worker) : SelectResult → Option Worker
  | .eintr =>
      some (if w.state = .connClientUnmapped then w.goto .recycle
        else w.goto (.lookup .interrupt))
  | .timeout =>
      match w.state with
      | .connClientWaitMap => some (w.goto (.lookup .timeout))
      | .connClientMapped => some (w.goto (.openCard .timeout))
      | _ => none
  | .readable => some (w.goto .read)
  | .error => some (w.goto .recycle)

/-- The rest of `worker_open_card()` before the driver is called. -/
def resolve (v : View) (w : Worker) (k : Caller) : Worker :=
  match w.readerName <|> v.slotName w.slot with
  | none => w.goto (.returned k false)
  | some name => { w.goto (.driver k) with readerName := some name }

/-- A step at the begin of one of `Worker.step`. -/
def enter (v : View) (w : Worker) (act : Act) : Option Thread :=
  match w.pc, act with
  | .wait, .cont _ => some ⟨w, .armed w.timeout⟩
  | .wait, _ => none
  | .assigned k, .cont _ =>
      some ⟨{ w.goto (.openCard k) with state := .connClientMapped }, .storing 10⟩
  | .opened k, .cont _ =>
      some ⟨{ w.goto (.returned k true) with state := .connClientMappedCard }, .storing 0⟩
  | .openCard _, .cont _ => if w.state = .connClientMapped then some ⟨w, .asserted⟩ else none
  | _, _ => (w.step v act).map (⟨·, .entry⟩)

/-- One step of a thread. -/
def step (v : View) (t : Thread) (act : Act) : Option Thread :=
  match t.spot, act with
  | .entry, act => enter v t.worker act
  | .storing timeout, .cont _ => some ⟨{ t.worker with timeout := timeout }, .entry⟩
  | .asserted, .cont _ =>
      match t.worker.pc with
      | .openCard k => some ⟨resolve v t.worker k, .entry⟩
      | _ => none
  | .armed timeout, .cont _ => some ⟨t.worker, .blocked timeout⟩
  | .blocked timeout, .select r =>
      if r = .timeout ∧ timeout = 0 then none else some ⟨t.worker, .woken r⟩
  | .woken r, .cont _ => (wake t.worker r).map (⟨·, .entry⟩)
  | _, _ => none

/-- Where the thread is after the handler of a signal has returned. -/
def interrupt : Spot → Spot
  | .blocked _ => .woken .eintr
  | s => s

/-- A step, with what is read of the rest of the process, or the handling of a signal. -/
inductive Label where
  | run (v : View) (act : Act)
  | signal (sig : Signal)

/-- The successor state, if the step can happen. -/
def next (t : Thread) : Label → Option Thread
  | .run v act => t.step v act
  | .signal sig =>
      if t.worker.pc = .boot then none else some ⟨t.worker.handleSig sig, interrupt t.spot⟩

/-- A new thread. -/
def start : Thread := ⟨Worker.fresh, .entry⟩

/-- All runs of a thread. -/
def lts : Transition.Lts Thread Label := Transition.ofFun (· = start) next

/-- **The assertions that a thread has before it hold**: those of `worker_open_card()`, and that
of `worker_transceive_loop()` when `select()` has timed out. -/
structure Asserted (t : Thread) : Prop where
  openCard : ∀ k, t.spot = .entry → t.worker.pc = .openCard k →
    t.worker.state = .connClientMapped
  reader : ∀ k, t.spot = .entry → t.worker.pc = .driver k → t.worker.readerName.isSome = true
  timeout : t.spot = .woken .timeout →
    t.worker.state = .connClientWaitMap ∨ t.worker.state = .connClientMapped

end Thread

/-- `worker_open_card()` is about to be entered. -/
def Pc.isOpenCard : Pc → Bool
  | .openCard _ => true
  | _ => false

namespace Thread

/-- The places where `SIGMAPDEL` takes away what a later assertion needs. -/
def exposed (t : Thread) : Bool :=
  t.worker.state.geMapped && match t.spot with
    | .entry => t.worker.pc.isOpenCard
    | .storing _ => t.worker.pc.isOpenCard
    | .armed timeout => timeout != 0
    | .woken r => r == .timeout
    | _ => false

/-- `SIGMAPDEL` is not handled at such a place. -/
def Calm (t : Thread) : Label → Prop
  | .signal (.mapDel _) => t.exposed = false
  | _ => True

end Thread

/-! ### State and timeout in a step of a worker -/

namespace Worker

variable {w w' : Worker} {v : View}

/-- The two fields that the handler writes as well. -/
def timing (w : Worker) : WorkerState × ℕ := (w.state, w.timeout)

/-- Only the two states with a timeout have one. -/
def Steady (w : Worker) : Prop := w.timeout ≠ 0 → w.state.timed = true

theorem Steady.of_timing (h : w.Steady) (ht : w'.timing = w.timing) : w'.Steady := by
  obtain ⟨hs, ho⟩ := Prod.ext_iff.mp ht
  intro hne
  rw [show w'.timeout = w.timeout from ho] at hne
  rw [show w'.state = w.state from hs]
  exact h hne

theorem timing_sendRspro (pdu : RsproPDU) (ok : Bool) :
    (w.sendRspro pdu ok).timing = w.timing := by
  unfold sendRspro
  split_ifs <;> rfl

theorem timing_again : w.again.timing = w.timing := by
  unfold again
  split_ifs <;> rfl

theorem timing_pcscGetAtr (io : Io) : (w.pcscGetAtr io).1.timing = w.timing := by
  unfold pcscGetAtr
  split <;> rfl

theorem timing_pcscConnectSlotRegex (re : Regex) (n : String) (io : Io) :
    (w.pcscConnectSlotRegex re n io).1.timing = w.timing := by
  unfold pcscConnectSlotRegex
  split
  · cases io.readers with
    | none => rfl
    | some rs =>
        simp only
        cases rs.find? (re.exec n) with
        | none => rfl
        | some r =>
            simp only
            split <;> rfl
  · rfl

theorem timing_pcscOpenCard (re : Regex) (n : String) (io : Io) :
    (w.pcscOpenCard re n io).1.timing = w.timing := by
  unfold pcscOpenCard
  split
  · simp only
    split
    · exact timing_pcscGetAtr io
    · have hc : ({ w with hContext := true }.pcscConnectSlotRegex re n io).1.timing = w.timing :=
        timing_pcscConnectSlotRegex re n io
      split
      · rename_i u hu
        rw [hu] at hc
        exact hc
      · rename_i u hu
        rw [hu] at hc
        exact (timing_pcscGetAtr io).trans hc
  · rfl

theorem timing_handleClientSlotStatusInd (st : SlotPhysStatus) (io : Io) :
    (w.handleClientSlotStatusInd st io).timing = w.timing := by
  have hr : (w.pcscResetCard io).timing = w.timing := by
    unfold pcscResetCard
    split_ifs
    · exact timing_pcscGetAtr io
    · rfl
  show (if _ then _ else w : Worker).timing = w.timing
  split_ifs
  · exact hr
  · rfl

theorem timing_afterTry (ok : Bool) (io : Io) (k : Caller) :
    (w.afterTry ok io k).timing = w.timing := by
  cases k with
  | connect =>
      unfold afterTry
      generalize (if ok then ResultCode.ok else .cardNotPresent) = r
      simp only
      split_ifs
      · exact timing_sendRspro _ _
      · exact timing_sendRspro _ _
      · exact timing_again.trans ((timing_sendRspro _ _).trans (timing_sendRspro _ _))
      · exact timing_again.trans (timing_sendRspro _ _)
  | interrupt => rfl
  | timeout =>
      refine timing_again.trans ?_
      split_ifs
      · exact timing_sendRspro _ _
      · rfl

theorem steady_handleRspro (h : w.Steady) (io : Io) (pdu : RsproPDU) :
    (w.handleRspro v io pdu).Steady := by
  cases pdu with
  | connectClientReq identity clientSlot =>
      simp only [handleRspro, handleConnectClientReq]
      split_ifs
      · exact h.of_timing (timing_sendRspro _ _)
      · cases clientSlot with
        | none => exact h.of_timing (timing_sendRspro _ _)
        | some cs => exact fun hne => absurd rfl hne
  | tpduModemToCard src dst data =>
      simp only [handleRspro, handleTpduModemToCard]
      cases v.tpdu src dst data io with
      | none => exact h
      | some resp => exact h.of_timing (timing_again.trans (timing_sendRspro _ _))
  | clientSlotStatusInd st =>
      exact h.of_timing (timing_again.trans (timing_handleClientSlotStatusInd st io))
  | setAtrRes r => exact h.of_timing timing_again
  | _ => exact h

theorem Steady.step (h : w.Steady) {act : Act} (hs : w.step v act = some w') : w'.Steady := by
  have zero : ∀ {u : Worker}, u.timeout = 0 → u.Steady := fun hz hne => absurd hz hne
  cases act with
  | boot =>
      simp only [Worker.step, Option.ite_none_right_eq_some, Option.some.injEq] at hs
      exact hs.2 ▸ zero rfl
  | accept =>
      simp only [Worker.step, Option.ite_none_right_eq_some, Option.some.injEq] at hs
      exact hs.2 ▸ zero rfl
  | select r =>
      simp only [Worker.step, Option.ite_none_right_eq_some] at hs
      obtain ⟨_, hs⟩ := hs
      cases r with
      | eintr =>
          obtain rfl := Option.some.inj hs
          split_ifs <;> exact h
      | timeout =>
          simp only [Option.ite_none_left_eq_some] at hs
          obtain ⟨_, hs⟩ := hs
          split at hs
          · exact Option.some.inj hs ▸ h
          · exact Option.some.inj hs ▸ h
          · cases hs
      | readable => exact Option.some.inj hs ▸ h
      | error => exact Option.some.inj hs ▸ h
  | recv pdu io =>
      simp only [Worker.step, Option.ite_none_right_eq_some] at hs
      obtain ⟨_, hs⟩ := hs
      cases pdu with
      | none => exact Option.some.inj hs ▸ h
      | some pdu => exact Option.some.inj hs ▸ steady_handleRspro h io pdu
  | cont io =>
      simp only [Worker.step] at hs
      split at hs
      · split at hs
        · exact Option.some.inj hs ▸ fun _ => rfl
        · exact Option.some.inj hs ▸ h
      · exact Option.some.inj hs ▸ h
      · exact Option.some.inj hs ▸ fun _ => rfl
      · simp only [Option.ite_none_right_eq_some] at hs
        obtain ⟨_, hs⟩ := hs
        split at hs
        · exact Option.some.inj hs ▸ h
        · exact Option.some.inj hs ▸ h
      · split at hs
        · cases hs
        · rename_i n _
          have ht := w.timing_pcscOpenCard v.regex n io
          split at hs
          · rename_i u hu
            rw [hu] at ht
            exact Option.some.inj hs ▸ h.of_timing ht
          · rename_i u hu
            rw [hu] at ht
            exact Option.some.inj hs ▸ h.of_timing ht
      · exact Option.some.inj hs ▸ zero rfl
      · rename_i k ok _
        exact Option.some.inj hs ▸ h.of_timing (timing_afterTry ok io k)
      · exact Option.some.inj hs ▸ zero rfl
      · cases hs

theorem Move.openCard {pc : Pc} {c : Core} (h : Move v w pc c) {k : Caller}
    (hpc : pc = .openCard k) : c.state = .connClientMapped := by
  cases h with
  | retry _ hst => exact hst
  | map _ => rfl
  | quiet ho =>
      rw [hpc] at ho
      exact ho.elim
  | driver _ _ _ hor =>
      rw [hpc] at hor
      rcases hor with ⟨hor, _⟩ | hor <;> cases hor
  | _ => cases hpc

theorem Move.reader {pc : Pc} {c : Core} (h : Move v w pc c) {k : Caller}
    (hpc : pc = .driver k) : c.readerName.isSome = true := by
  cases h with
  | name _ _ _ => rfl
  | quiet ho =>
      rw [hpc] at ho
      exact ho.elim
  | driver _ _ _ hor =>
      rw [hpc] at hor
      rcases hor with ⟨hor, _⟩ | hor <;> cases hor
  | _ => cases hpc

end Worker

/-! ### Runs in which `SIGMAPDEL` meets no assertion -/

namespace Thread

variable {t t' : Thread} {w : Worker} {v : View}

/-- What holds between two statements of such a run. -/
def Guarded (t : Thread) : Prop :=
  match t.spot with
  | .entry =>
      t.worker.Steady ∧ (∀ k, t.worker.pc = .openCard k → t.worker.state = .connClientMapped) ∧
        ∀ k, t.worker.pc = .driver k → t.worker.readerName.isSome = true
  | .storing timeout =>
      (timeout ≠ 0 → ∃ k, t.worker.pc = .openCard k) ∧
        (∀ k, t.worker.pc = .openCard k → t.worker.state = .connClientMapped) ∧
        ∀ k, t.worker.pc ≠ .driver k
  | .asserted => t.worker.Steady
  | .armed timeout => t.worker.Steady ∧ (timeout ≠ 0 → t.worker.state.timed = true)
  | .blocked timeout => t.worker.Steady ∧ (timeout ≠ 0 → t.worker.state.timed = true)
  | .woken r => t.worker.Steady ∧ (r = .timeout → t.worker.state.timed = true)

theorem Guarded.asserted (h : t.Guarded) : t.Asserted := by
  unfold Guarded at h
  refine ⟨fun k hs hpc => ?_, fun k hs hpc => ?_, fun hs => ?_⟩
  · rw [hs] at h
    exact h.2.1 k hpc
  · rw [hs] at h
    exact h.2.2 k hpc
  · rw [hs] at h
    have ht := h.2 rfl
    cases hst : t.worker.state with
    | connClientWaitMap => exact .inl rfl
    | connClientMapped => exact .inr rfl
    | _ =>
        rw [hst] at ht
        cases ht

/-- Where neither assertion of `worker_open_card()` comes next. -/
theorem guarded_entry (h : w.Steady) (ho : ∀ k, w.pc ≠ .openCard k) (hd : ∀ k, w.pc ≠ .driver k) :
    Guarded ⟨w, .entry⟩ :=
  ⟨h, fun k hk => absurd hk (ho k), fun k hk => absurd hk (hd k)⟩

theorem guarded_step {w' : Worker} {act : Act} (h : w.Steady) (hs : w.step v act = some w') :
    Guarded ⟨w', .entry⟩ :=
  ⟨h.step hs, fun _ hk => (Worker.step_move hs).openCard hk,
    fun _ hk => (Worker.step_move hs).reader hk⟩

theorem Guarded.enter {act : Act} (h : Guarded ⟨w, .entry⟩) (hs : enter v w act = some t') :
    t'.Guarded := by
  obtain ⟨hst, hopen, _⟩ := h
  unfold Thread.enter at hs
  split at hs
  · exact Option.some.inj hs ▸ ⟨hst, hst⟩
  · cases hs
  · rename_i k _ _
    exact Option.some.inj hs ▸ ⟨fun _ => ⟨k, rfl⟩, fun _ _ => rfl, nofun⟩
  · exact Option.some.inj hs ▸ ⟨fun hne => absurd rfl hne, nofun, nofun⟩
  · simp only [Option.ite_none_right_eq_some, Option.some.injEq] at hs
    exact hs.2 ▸ hst
  · obtain ⟨w', hw, rfl⟩ := Option.map_eq_some_iff.mp hs
    exact guarded_step hst hw

theorem Guarded.wake {r : SelectResult} {w' : Worker} (h : Guarded ⟨w, .woken r⟩)
    (hs : wake w r = some w') : Guarded ⟨w', .entry⟩ := by
  obtain ⟨hst, ht⟩ := h
  cases r with
  | eintr =>
      obtain rfl := Option.some.inj hs
      split_ifs
      · exact guarded_entry hst nofun nofun
      · exact guarded_entry hst nofun nofun
  | timeout =>
      simp only [Thread.wake] at hs
      split at hs
      · exact Option.some.inj hs ▸ guarded_entry hst nofun nofun
      · rename_i hm
        exact Option.some.inj hs ▸ ⟨hst, fun _ _ => hm, nofun⟩
      · cases hs
  | readable => exact Option.some.inj hs ▸ guarded_entry hst nofun nofun
  | error => exact Option.some.inj hs ▸ guarded_entry hst nofun nofun

theorem guarded_resolve (h : w.Steady) (k : Caller) : Guarded ⟨resolve v w k, .entry⟩ := by
  unfold resolve
  split
  · exact guarded_entry h nofun nofun
  · exact ⟨h, nofun, fun _ _ => rfl⟩

theorem Guarded.step {act : Act} (h : t.Guarded) (hs : t.step v act = some t') : t'.Guarded := by
  obtain ⟨w, spot⟩ := t
  cases spot with
  | entry => exact h.enter hs
  | storing timeout =>
      cases act with
      | cont io =>
          obtain ⟨ht, hopen, hd⟩ := h
          obtain rfl := Option.some.inj hs
          refine ⟨fun hne => ?_, hopen, fun k hk => absurd hk (hd k)⟩
          obtain ⟨k, hk⟩ := ht hne
          show w.state.timed = true
          rw [hopen k hk]
          rfl
      | _ => cases hs
  | asserted =>
      cases act with
      | cont io =>
          simp only [Thread.step] at hs
          split at hs
          · exact Option.some.inj hs ▸ guarded_resolve h _
          · cases hs
      | _ => cases hs
  | armed timeout =>
      cases act with
      | cont io => exact Option.some.inj hs ▸ h
      | _ => cases hs
  | blocked timeout =>
      cases act with
      | select r =>
          simp only [Thread.step, Option.ite_none_left_eq_some, Option.some.injEq] at hs
          obtain ⟨hr, rfl⟩ := hs
          exact ⟨h.1, fun hto => h.2 fun hz => hr ⟨hto, hz⟩⟩
      | _ => cases hs
  | woken r =>
      cases act with
      | cont io =>
          obtain ⟨w', hw, rfl⟩ := Option.map_eq_some_iff.mp hs
          exact h.wake hw
      | _ => cases hs

theorem guarded_interrupt {s : Spot} (h : Guarded ⟨w, s⟩) : Guarded ⟨w, interrupt s⟩ := by
  cases s with
  | blocked timeout => exact ⟨h.1, nofun⟩
  | _ => exact h

theorem Guarded.mapdel (h : t.Guarded) (hc : t.exposed = false) :
    Guarded ⟨t.worker.handleSigMapdel, interrupt t.spot⟩ := by
  obtain ⟨w, spot⟩ := t
  unfold exposed at hc
  simp only [Worker.handleSigMapdel]
  cases hge : w.state.geMapped with
  | false => exact guarded_interrupt h
  | true =>
      rw [hge, Bool.true_and] at hc
      have hnot : ∀ k, w.pc.isOpenCard = false → w.pc ≠ .openCard k := by
        intro k hno hk
        rw [hk] at hno
        cases hno
      have hzero : Worker.Steady
          { w.setState .connClientUnmapped 0 with slot := ⟨0xffff, 0xffff⟩ } :=
        fun hne => absurd rfl hne
      cases spot with
      | entry => exact ⟨hzero, fun k hk => absurd hk (hnot k hc), h.2.2⟩
      | storing timeout =>
          refine ⟨fun hne => ?_, fun k hk => absurd hk (hnot k hc), h.2.2⟩
          obtain ⟨k, hk⟩ := h.1 hne
          exact absurd hk (hnot k hc)
      | asserted => exact hzero
      | armed timeout =>
          have hz : timeout = 0 := by simpa using hc
          exact ⟨hzero, fun hne => absurd hz hne⟩
      | blocked timeout => exact ⟨hzero, nofun⟩
      | woken r =>
          refine ⟨hzero, fun hr => ?_⟩
          rw [hr] at hc
          cases hc

theorem reach_guarded (h : lts.Reach Calm t) : t.Guarded := by
  refine h.invariant (I := Guarded) ?_ fun t l t' hi hc hst => ?_
  · rintro _ rfl
    exact guarded_entry (fun hne => absurd rfl hne) nofun nofun
  · cases l with
    | run v act => exact hi.step hst
    | signal sig =>
        change (if t.worker.pc = .boot then none else some _) = some t' at hst
        simp only [Option.ite_none_left_eq_some, Option.some.injEq] at hst
        obtain ⟨_, rfl⟩ := hst
        cases sig with
        | mapAdd => exact guarded_interrupt hi
        | mapDel n => exact hi.mapdel hc

/-! ### Runs in which it does -/

/-- A process that answers nothing. -/
def silentView : View :=
  ⟨⟨fun _ => false, fun _ _ => false⟩, fun _ => none, fun _ => none, fun _ _ _ _ => none⟩

/-- No call succeeds. -/
def silentIo : Io := ⟨false, none, false, none, false, none, false, false⟩

theorem steps_run (v : View) (act : Act) (h : t.step v act = some t') :
    lts.Steps Transition.Lts.Any t t' :=
  .single trivial (show next t (.run v act) = some t' from h)

/-- After a `SIGMAPDEL` at an exposed place the thread can get to an assertion that fails. -/
theorem exposed_fails {n : ℕ} (he : t.exposed = true)
    (hs : next t (.signal (.mapDel n)) = some t') :
    ∃ u, lts.Steps Transition.Lts.Any t' u ∧ ¬u.Asserted := by
  obtain ⟨w, spot⟩ := t
  simp only [next, Option.ite_none_left_eq_some, Option.some.injEq] at hs
  obtain ⟨_, rfl⟩ := hs
  simp only [exposed, Bool.and_eq_true] at he
  obtain ⟨hge, he⟩ := he
  have hw : w.handleSig (.mapDel n) =
      { w.setState .connClientUnmapped 0 with slot := ⟨0xffff, 0xffff⟩ } := if_pos hge
  rw [hw]
  generalize hu : ({ w.setState .connClientUnmapped 0 with slot := ⟨0xffff, 0xffff⟩ } : Worker) = u
  have hst : u.state = .connClientUnmapped := by rw [← hu]; rfl
  have hpc : u.pc = w.pc := by rw [← hu]; rfl
  have hopen : w.pc.isOpenCard = true → ∀ x : Worker, x.pc = u.pc → x.state = u.state →
      ¬Asserted ⟨x, .entry⟩ := by
    intro ho x hx hxs ha
    cases hp : w.pc with
    | openCard k =>
        have hm := ha.openCard k rfl (hx.trans (hpc.trans hp))
        exact absurd (hst.symm.trans (hxs.symm.trans hm)) (by decide)
    | _ =>
        rw [hp] at ho
        cases ho
  have hwoken : ¬Asserted ⟨u, .woken .timeout⟩ := by
    intro ha
    rcases ha.timeout rfl with hm | hm <;> exact absurd (hst.symm.trans hm) (by decide)
  cases spot with
  | entry => exact ⟨_, .refl _, hopen he u rfl rfl⟩
  | storing timeout =>
      refine ⟨⟨{ u with timeout := timeout }, .entry⟩, ?_, hopen he _ rfl rfl⟩
      exact steps_run silentView (.cont silentIo) rfl
  | asserted => cases he
  | armed timeout =>
      have hne : ¬(SelectResult.timeout = .timeout ∧ timeout = 0) := by simpa using he
      refine ⟨⟨u, .woken .timeout⟩, ?_, hwoken⟩
      have hblocked : step silentView ⟨u, .armed timeout⟩ (.cont silentIo) =
          some ⟨u, .blocked timeout⟩ := rfl
      exact (steps_run _ _ hblocked).trans (steps_run silentView (.select .timeout) (if_neg hne))
  | blocked timeout => cases he
  | woken r =>
      obtain rfl : r = .timeout := by simpa using he
      exact ⟨_, .refl _, hwoken⟩

/-- **No assertion of a worker fails while `SIGMAPDEL` is not handled at an exposed place**, and
handling it at such a place opens the way to one that does. -/
theorem calm_asserted (t : Thread) :
    (lts.Reach Calm t → t.Asserted) ∧
      ∀ l t', next t l = some t' → ¬t.Calm l →
        ∃ u, lts.Steps Transition.Lts.Any t' u ∧ ¬u.Asserted := by
  refine ⟨fun h => (reach_guarded h).asserted, fun l t' hs hc => ?_⟩
  match l, hs, hc with
  | .run v act, _, hc => exact absurd trivial hc
  | .signal .mapAdd, _, hc => exact absurd trivial hc
  | .signal (.mapDel n), hs, hc =>
      refine exposed_fails ?_ hs
      cases he : t.exposed with
      | true => rfl
      | false => exact absurd he hc

instance (t : Thread) : ∀ l, Decidable (t.Calm l)
  | .run _ _ => .isTrue trivial
  | .signal .mapAdd => .isTrue trivial
  | .signal (.mapDel _) => inferInstanceAs (Decidable (t.exposed = false))

/-- A bankd that has mapped client slot 3:0 to bank slot 1:2. -/
def mappedView : View :=
  { silentView with
    slotName := fun _ => some "reader 2"
    byClient := fun cs => if cs = ⟨3, 0⟩ then some ⟨1, 2⟩ else none }

/-- The client can be written to, and its card cannot be opened. -/
def noCard : Io := { silentIo with write := true, writeAtr := true }

/-- A client connects, and the worker gets up to the call of `worker_open_card()`. -/
def toOpenCard : List Label :=
  [.run mappedView .boot, .run mappedView .accept, .run mappedView (.cont noCard),
    .run mappedView (.cont noCard), .run mappedView (.select .readable),
    .run mappedView (.cont noCard),
    .run mappedView (.recv (some (.connectClientReq .remsimClient (some ⟨3, 0⟩))) noCard),
    .run mappedView (.cont noCard), .run mappedView (.cont noCard),
    .run mappedView (.cont noCard), .run mappedView (.cont noCard)]

/-- The card cannot be opened, and the worker gets ready to wait for a message or a timeout. -/
def toSelect : List Label :=
  toOpenCard ++ [.run mappedView (.cont noCard), .run mappedView (.cont noCard),
    .run mappedView (.cont noCard), .run mappedView (.cont noCard), .run mappedView (.cont noCard)]

/-- The timeout expires. -/
def toTimeout : List Label := [.run mappedView (.cont noCard), .run mappedView (.select .timeout)]

/-- `SIGMAPDEL` is handled between the store of `MAPPED` and the assertion. -/
def unmappedAtOpen : Thread :=
  Transition.after next start (toOpenCard ++ [.signal (.mapDel 0)])

/-- `SIGMAPDEL` is handled after the timeout has been read and before `select()` waits. -/
def unmappedAtSelect : Thread :=
  Transition.after next start (toSelect ++ .signal (.mapDel 0) :: toTimeout)

/-- Both assertions can fail. -/
theorem mapdel_not_asserted :
    (lts.Reach Transition.Lts.Any unmappedAtOpen ∧ ¬unmappedAtOpen.Asserted) ∧
      lts.Reach Transition.Lts.Any unmappedAtSelect ∧ ¬unmappedAtSelect.Asserted := by
  refine ⟨⟨?_, fun h => ?_⟩, ?_, fun h => ?_⟩
  · exact Transition.reach_after rfl (by decide +kernel) (by decide +kernel)
  · have hm := h.openCard .connect (by decide +kernel) (by decide +kernel)
    exact absurd hm (by decide +kernel)
  · exact Transition.reach_after rfl (by decide +kernel) (by decide +kernel)
  · have hm := h.timeout (by decide +kernel)
    exact absurd hm (by decide +kernel)

/-- Without the signal the timeout is acted on in `MAPPED`. -/
theorem toTimeout_asserted :
    (Transition.after next start (toSelect ++ toTimeout)).spot = .woken .timeout ∧
      (Transition.after next start (toSelect ++ toTimeout)).Asserted ∧
      ∃ u, lts.Steps Transition.Lts.Any unmappedAtOpen u ∧ ¬u.Asserted := by
  refine ⟨by decide +kernel, (calm_asserted _).1 ?_, ?_⟩
  · exact Transition.reach_after rfl (by decide +kernel) (by decide +kernel)
  · refine (calm_asserted (Transition.after next start toOpenCard)).2 (.signal (.mapDel 0)) _ ?_ ?_
    · decide +kernel
    · decide +kernel

/-! ### The steps of `Worker.step` -/

theorem steps_enter {act : Act} (h : enter v w act = some t') :
    lts.Steps Transition.Lts.Any ⟨w, .entry⟩ t' := steps_run v act h

theorem select_runs (r : SelectResult) {w' : Worker} (hpc : w.pc = .wait)
    (hr : ¬(r = .timeout ∧ w.timeout = 0)) (h : wake w r = some w') :
    lts.Steps Transition.Lts.Any ⟨w, .entry⟩ ⟨w', .entry⟩ := by
  have harm : enter silentView w (.cont silentIo) = some ⟨w, .armed w.timeout⟩ := by
    unfold enter
    rw [hpc]
  have hblock : step silentView ⟨w, .armed w.timeout⟩ (.cont silentIo) =
      some ⟨w, .blocked w.timeout⟩ := rfl
  have hselect : step silentView ⟨w, .blocked w.timeout⟩ (.select r) = some ⟨w, .woken r⟩ :=
    if_neg hr
  have hwake : step silentView ⟨w, .woken r⟩ (.cont silentIo) = some ⟨w', .entry⟩ := by
    show (wake w r).map (Thread.mk · .entry) = _
    rw [h]
    rfl
  exact (steps_enter harm).trans ((steps_run _ _ hblock).trans
    ((steps_run _ _ hselect).trans (steps_run _ _ hwake)))

theorem enter_runs {w' : Worker} {act : Act} (h : w.step v act = some w')
    (he : enter v w act = (w.step v act).map (⟨·, .entry⟩)) :
    lts.Steps Transition.Lts.Any ⟨w, .entry⟩ ⟨w', .entry⟩ := by
  have hs : enter v w act = some ⟨w', .entry⟩ := by
    rw [he, h]
    rfl
  exact steps_enter hs

/-- **Every step of `Worker.step` is a run of the thread.** -/
theorem step_runs {w' : Worker} {act : Act} (h : w.step v act = some w') :
    lts.Steps Transition.Lts.Any ⟨w, .entry⟩ ⟨w', .entry⟩ := by
  cases act with
  | boot =>
      have hpc := (Option.ite_none_right_eq_some.mp h).1
      refine enter_runs h ?_
      unfold enter
      rw [hpc]
  | accept =>
      have hpc := (Option.ite_none_right_eq_some.mp h).1
      refine enter_runs h ?_
      unfold enter
      rw [hpc]
  | recv pdu io =>
      have hpc := (Option.ite_none_right_eq_some.mp h).1
      refine enter_runs h ?_
      unfold enter
      rw [hpc]
  | select r =>
      obtain ⟨hpc, hs⟩ := Option.ite_none_right_eq_some.mp h
      cases r with
      | timeout =>
          simp only [Option.ite_none_left_eq_some] at hs
          exact select_runs .timeout hpc (fun hz => hs.1 hz.2) hs.2
      | eintr => exact select_runs .eintr hpc (fun hz => nomatch hz.1) hs
      | readable => exact select_runs .readable hpc (fun hz => nomatch hz.1) hs
      | error => exact select_runs .error hpc (fun hz => nomatch hz.1) hs
  | cont io =>
      cases hpc : w.pc with
      | assigned k =>
          simp only [Worker.step, hpc, Option.some.injEq] at h
          subst h
          have hstore : enter v w (.cont io) =
              some ⟨{ w.goto (.openCard k) with state := .connClientMapped }, .storing 10⟩ := by
            unfold enter
            rw [hpc]
          exact (steps_enter hstore).trans (steps_run v (.cont io) rfl)
      | opened k =>
          simp only [Worker.step, hpc, Option.some.injEq] at h
          subst h
          have hstore : enter v w (.cont io) = some
              ⟨{ w.goto (.returned k true) with state := .connClientMappedCard }, .storing 0⟩ := by
            unfold enter
            rw [hpc]
          exact (steps_enter hstore).trans (steps_run v (.cont io) rfl)
      | openCard k =>
          simp only [Worker.step, hpc, Option.ite_none_right_eq_some] at h
          have hassert : enter v w (.cont io) = some ⟨w, .asserted⟩ := by
            unfold enter
            rw [hpc]
            exact if_pos h.1
          have hresolve : step v ⟨w, .asserted⟩ (.cont io) = some ⟨w', .entry⟩ := by
            show (match w.pc with | .openCard k => _ | _ => none) = _
            rw [hpc]
            have hw : resolve v w k = w' := by
              unfold resolve
              split
              · rename_i hn
                rw [hn] at h
                exact Option.some.inj h.2
              · rename_i n hn
                rw [hn] at h
                exact Option.some.inj h.2
            show some (⟨resolve v w k, .entry⟩ : Thread) = _
            rw [hw]
          exact (steps_enter hassert).trans (steps_run _ _ hresolve)
      | wait =>
          simp only [Worker.step, hpc] at h
          cases h
      | _ =>
          refine enter_runs h ?_
          unfold enter
          rw [hpc]

/-- **Every worker of the process is a thread between two steps.** -/
theorem reach_thread {re : Regex} {d : Bankd} {C : Bankd → Bankd.Label → Prop}
    (h : (Bankd.lts re).Reach C d) : ∀ w ∈ d.workers, lts.Reach Transition.Lts.Any ⟨w, .entry⟩ := by
  refine h.invariant (I := fun d => ∀ w ∈ d.workers, lts.Reach Transition.Lts.Any ⟨w, .entry⟩) ?_ ?_
  · rintro _ ⟨bank, names, ki, rfl⟩ w hw
    obtain rfl := (List.mem_replicate.mp hw).2
    exact .init rfl
  · intro d l d' hI _ hst
    rcases Bankd.next_cases hst with ⟨pdu, rfl, rfl⟩ | ⟨i, sig, w, rfl, hw, _, hboot, rfl⟩ |
      ⟨i, act, w, w', rfl, hw, hs, rfl⟩
    · exact hI
    · intro u hu
      rcases Bankd.mem_setWorker hu with rfl | hu
      · have hn : next ⟨w, .entry⟩ (.signal sig) = some ⟨w.handleSig sig, .entry⟩ := if_neg hboot
        exact (hI w (List.mem_of_getElem? hw)).step trivial hn
      · exact hI u hu
    · intro u hu
      rcases Bankd.mem_setWorker hu with rfl | hu
      · exact (hI w (List.mem_of_getElem? hw)).steps (step_runs hs)
      · exact hI u hu

end Thread
end Remsim
