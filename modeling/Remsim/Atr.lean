import Remsim.Journal

/-! # The ATR of a newly opened card

A client needs the ATR of its card before anything else that a worker has to say about it.  Three
callers of `worker_open_card()` can bring a worker into `CONN_CLIENT_MAPPED_CARD`, and each has to
send the ATR itself.  `Owes` says that a card was opened and its ATR not sent yet, `TellsAtr` that
the worker neither waits nor answers a TPDU while it owes the ATR, and `tells` what a step must be
like for that.  `tellsAtr_iff` is about whole runs. -/

namespace Remsim

/-- In a call of `select()`, whether the worker has a card. -/
def Evt.card : Evt → Option Bool
  | .waits card => some card
  | _ => none

/-- What must not come before the ATR: waiting for the client, and answering a TPDU. -/
def Evt.needsAtr : Evt → Bool
  | .waits _ => true
  | .sent (.tpduCardToModem _ _ _) => true
  | _ => false

/-- The worker had a card when it last waited. -/
def hadCard (log : List Evt) : Bool := (log.filterMap Evt.card).getLast?.getD false

/-- A worker without a card has opened one with this ATR, and has not sent the ATR on this
connection since. -/
def Owes (log : List Evt) (atr : List UInt8) : Prop :=
  ∃ pre mid, log = pre ++ .opened atr :: mid ∧ hadCard pre = false ∧ .accepted ∉ mid ∧
    ∀ slot, .sent (.setAtrReq slot atr) ∉ mid

/-- The worker never waits or answers a TPDU while it owes an ATR. -/
def TellsAtr (log : List Evt) : Prop :=
  ∀ pre e post, log = pre ++ e :: post → e.needsAtr = true → ∀ atr, ¬Owes pre atr

/-- The step is not the return of `worker_try_slotmap()`, called after an interrupted `select()`,
with a card that the worker did not have, and not an attempt to send the ATR of such a card that
fails after a timeout and leaves the worker on the connection. -/
def Journal.tells (t : Journal) : Journal.Label → Bool
  | .run _ (.cont io) =>
      match t.worker.pc with
      | .returned .interrupt true => hadCard t.log
      | .returned .timeout true =>
          hadCard t.log || io.writeAtr || decide (t.worker.state = .connClientUnmapped)
      | _ => true
  | _ => true

/-! ### One more event -/

theorem hadCard_snoc (log : List Evt) (e : Evt) :
    hadCard (log ++ [e]) = e.card.getD (hadCard log) := by
  unfold hadCard
  rw [List.filterMap_append, ListLib.getLast?_getD_append]
  cases he : e.card <;> simp [he]

theorem owes_snoc {log : List Evt} {e : Evt} {atr : List UInt8} :
    Owes (log ++ [e]) atr ↔
      (e = .opened atr ∧ hadCard log = false) ∨
        (Owes log atr ∧ e ≠ .accepted ∧ ∀ slot, e ≠ .sent (.setAtrReq slot atr)) := by
  constructor
  · rintro ⟨pre, mid, hlog, hcard, hacc, hsent⟩
    rcases ListLib.append_singleton_eq_iff.mp hlog with ⟨rfl, rfl, rfl⟩ | ⟨rest, rfl, rfl⟩
    · exact .inl ⟨rfl, hcard⟩
    · refine .inr ⟨⟨pre, rest, rfl, hcard, fun h => hacc (List.mem_append_left _ h),
        fun slot h => hsent slot (List.mem_append_left _ h)⟩, ?_, fun slot => ?_⟩
      · rintro rfl
        exact hacc (List.mem_append_right _ List.mem_cons_self)
      · rintro rfl
        exact hsent slot (List.mem_append_right _ List.mem_cons_self)
  · rintro (⟨rfl, hcard⟩ | ⟨⟨pre, mid, rfl, hcard, hacc, hsent⟩, hna, hns⟩)
    · exact ⟨log, [], rfl, hcard, List.not_mem_nil, fun _ => List.not_mem_nil⟩
    · refine ⟨pre, mid ++ [e], by simp, hcard, ?_, fun slot => ?_⟩
      · rw [List.mem_append, List.mem_singleton]
        exact fun h => h.elim hacc fun he => hna he.symm
      · rw [List.mem_append, List.mem_singleton]
        exact fun h => h.elim (hsent slot) fun he => hns slot he.symm

theorem tellsAtr_snoc {log : List Evt} {e : Evt} :
    TellsAtr (log ++ [e]) ↔ TellsAtr log ∧ (e.needsAtr = true → ∀ atr, ¬Owes log atr) := by
  constructor
  · intro h
    refine ⟨fun pre x post hlog => ?_, h log e [] rfl⟩
    exact h pre x (post ++ [e]) (by rw [hlog]; simp)
  · rintro ⟨h, he⟩ pre x post hlog hx
    rcases ListLib.append_singleton_eq_iff.mp hlog with ⟨rfl, rfl, rfl⟩ | ⟨rest, rfl, hpre⟩
    · exact he hx
    · exact h pre x rest hpre hx

/-! ### Several events -/

theorem TellsAtr.of_append {log es : List Evt} (h : TellsAtr (log ++ es)) : TellsAtr log := by
  intro pre e post hlog
  exact h pre e (post ++ es) (by rw [hlog]; simp)

theorem TellsAtr.append {log es : List Evt} (h : TellsAtr log)
    (hes : ∀ e ∈ es, e.needsAtr = false) : TellsAtr (log ++ es) := by
  induction es using List.reverseRecOn with
  | nil =>
      rw [List.append_nil]
      exact h
  | append_singleton es e ih =>
      rw [← List.append_assoc, tellsAtr_snoc]
      refine ⟨ih fun x hx => hes x (List.mem_append_left _ hx), fun he => ?_⟩
      rw [hes e (List.mem_append_right _ List.mem_cons_self)] at he
      cases he

theorem Owes.of_append {log es : List Evt} {atr : List UInt8} (h : Owes (log ++ es) atr)
    (hes : ∀ e ∈ es, ∀ a, e ≠ .opened a) : Owes log atr := by
  induction es using List.reverseRecOn with
  | nil =>
      rw [List.append_nil] at h
      exact h
  | append_singleton es e ih =>
      rw [← List.append_assoc, owes_snoc] at h
      rcases h with ⟨he, _⟩ | ⟨h, _⟩
      · exact absurd he (hes e (List.mem_append_right _ List.mem_cons_self) atr)
      · exact ih h fun x hx => hes x (List.mem_append_left _ hx)

/-- A worker that owes nothing can do anything but open a card. -/
theorem TellsAtr.append_clear {log es : List Evt} (h : TellsAtr log) (hno : ∀ atr, ¬Owes log atr)
    (hes : ∀ e ∈ es, ∀ a, e ≠ .opened a) : TellsAtr (log ++ es) := by
  induction es using List.reverseRecOn with
  | nil =>
      rw [List.append_nil]
      exact h
  | append_singleton es e ih =>
      have hes' : ∀ x ∈ es, ∀ a, x ≠ .opened a := fun x hx => hes x (List.mem_append_left _ hx)
      rw [← List.append_assoc, tellsAtr_snoc]
      exact ⟨ih hes', fun _ atr ho => hno atr (ho.of_append hes')⟩

theorem waits_ne_opened (card : Bool) : ∀ e ∈ [Evt.waits card], ∀ a, e ≠ .opened a := by
  intro e he a
  rw [List.mem_singleton.mp he]
  simp

/-! ### The return with a card -/

namespace Worker

variable {w : Worker} {k : Caller} {io : Io}

theorem sent_sendRspro (pdu : RsproPDU) (ok : Bool) :
    (w.sendRspro pdu ok).sent = w.sent ++ if ok then [pdu] else [] := by
  unfold sendRspro
  cases ok with
  | false => exact (List.append_nil _).symm
  | true => rfl

theorem sent_again : w.again.sent = w.sent := by
  unfold again
  split_ifs <;> rfl

/-- The PDU that announces the ATR. -/
def setAtr (w : Worker) : RsproPDU := .setAtrReq (clientSlot2rspro w.clslot) w.atr

theorem emits_returned {ok : Bool} (hpc : w.pc = .returned k ok) (w' : Worker) :
    w.emits (.cont io) w' = (w.written w').map .sent ++ w'.waitEvents := by
  have ha : Act.cont io ≠ .accept := nofun
  have ho : ∀ j, w.pc ≠ .opened j := by
    intro j hj
    rw [hpc] at hj
    cases hj
  exact emits_eq ha ho

/-- The callers that stay on the connection without having announced the ATR: the one after an
interrupted `select()`, and the one after a timeout when the write fails. -/
def Forgets (w : Worker) (io : Io) (k : Caller) : Prop :=
  k = .interrupt ∨ k = .timeout ∧ io.writeAtr = false ∧ w.state ≠ .connClientUnmapped

theorem emits_forgets (hpc : w.pc = .returned k true) (hf : Forgets w io k) :
    ∃ card, w.emits (.cont io) (w.afterTry true io k) = [.waits card] := by
  rw [emits_returned hpc]
  rcases hf with rfl | ⟨rfl, ha, hst⟩
  · have hsame : (w.afterTry true io .interrupt).sent = w.sent := rfl
    refine ⟨decide (w.state = .connClientMappedCard), ?_⟩
    rw [written_of_same hsame]
    rfl
  · have heq : w.afterTry true io .timeout = w.goto .wait := by
      simp only [afterTry, ha, if_true, sendAtr, sendRspro, Bool.false_eq_true, if_false, again,
        hst]
    have hsame : (w.goto .wait).sent = w.sent := rfl
    refine ⟨decide (w.state = .connClientMappedCard), ?_⟩
    rw [heq, written_of_same hsame]
    rfl

theorem waitEvents_ne_opened (u : Worker) : ∀ e ∈ u.waitEvents, ∀ a, e ≠ .opened a := by
  intro e he a
  unfold waitEvents at he
  split_ifs at he
  · exact waits_ne_opened _ e he a
  · cases he

/-- The worker gives up its connection, after events that need no ATR. -/
def GivesUp (w : Worker) (io : Io) (k : Caller) : Prop :=
  (w.afterTry true io k).pc.unconnected = true ∧
    ∀ e ∈ w.emits (.cont io) (w.afterTry true io k), e.needsAtr = false ∧ ∀ a, e ≠ .opened a

/-- The ATR is announced, after events that need none. -/
def Announces (w : Worker) (io : Io) (k : Caller) : Prop :=
  ∃ front rest, w.emits (.cont io) (w.afterTry true io k) = front ++ .sent w.setAtr :: rest ∧
    (∀ e ∈ front, e.needsAtr = false ∧ ∀ a, e ≠ .opened a) ∧ ∀ e ∈ rest, ∀ a, e ≠ .opened a

theorem returned_connect (hpc : w.pc = .returned .connect true) (io : Io) :
    GivesUp w io .connect ∨ Announces w io .connect := by
  unfold GivesUp Announces
  rw [emits_returned hpc]
  cases hw : io.write with
  | false =>
      refine .inl ?_
      have heq : w.afterTry true io .connect = w.goto .recycle := by
        simp only [afterTry, hw, sendRspro, if_true, Bool.false_eq_true, if_false]
      have hsame : (w.goto .recycle).sent = w.sent := rfl
      rw [heq, written_of_same hsame]
      exact ⟨rfl, fun e he => absurd he List.not_mem_nil⟩
  | true =>
      cases ha : io.writeAtr with
      | false =>
          refine .inl ?_
          have heq : w.afterTry true io .connect =
              (w.sendRspro (.connectClientRes .remsimBankd .ok) true).goto .recycle := by
            simp only [afterTry, hw, ha, if_true, Bool.true_eq_false, if_false]
          have hsent : (w.afterTry true io .connect).sent =
              w.sent ++ [.connectClientRes .remsimBankd .ok] := by
            rw [heq]
            exact sent_sendRspro _ true
          rw [written_of_sent hsent, heq]
          refine ⟨rfl, fun e he => ?_⟩
          obtain rfl := List.mem_singleton.mp he
          exact ⟨rfl, by simp⟩
      | true =>
          refine .inr ?_
          have heq : w.afterTry true io .connect =
              ((w.sendRspro (.connectClientRes .remsimBankd .ok) true).sendAtr true).again := by
            simp only [afterTry, hw, ha, if_true, Bool.true_eq_false, if_false]
          have hsent : (w.afterTry true io .connect).sent =
              w.sent ++ [.connectClientRes .remsimBankd .ok, w.setAtr] := by
            rw [heq, sent_again, sendAtr, sent_sendRspro, sent_sendRspro, List.append_assoc]
            rfl
          rw [written_of_sent hsent]
          refine ⟨[.sent (.connectClientRes .remsimBankd .ok)], _, rfl, fun e he => ?_,
            waitEvents_ne_opened _⟩
          obtain rfl := List.mem_singleton.mp he
          exact ⟨rfl, by simp⟩

theorem returned_timeout (hpc : w.pc = .returned .timeout true) (io : Io) :
    GivesUp w io .timeout ∨ Announces w io .timeout ∨ Forgets w io .timeout := by
  unfold GivesUp Announces
  rw [emits_returned hpc]
  cases ha : io.writeAtr with
  | false =>
      by_cases hst : w.state = .connClientUnmapped
      · have heq : w.afterTry true io .timeout = w.goto .recycle := by
          simp only [afterTry, ha, if_true, sendAtr, sendRspro, Bool.false_eq_true, if_false,
            again, hst]
        have hsame : (w.goto .recycle).sent = w.sent := rfl
        rw [heq, written_of_same hsame]
        exact .inl ⟨rfl, fun e he => absurd he List.not_mem_nil⟩
      · exact .inr (.inr (.inr ⟨rfl, ha, hst⟩))
  | true =>
      refine .inr (.inl ?_)
      have heq : w.afterTry true io .timeout = (w.sendAtr true).again := by
        simp only [afterTry, ha, if_true]
      have hsent : (w.afterTry true io .timeout).sent = w.sent ++ [w.setAtr] := by
        rw [heq, sent_again, sendAtr, sent_sendRspro]
        rfl
      rw [written_of_sent hsent]
      exact ⟨[], _, rfl, (fun e he => absurd he List.not_mem_nil), waitEvents_ne_opened _⟩

/-- What a caller does with a newly opened card: it leaves the connection, announces the ATR before
anything else that needs it, or does not announce it. -/
theorem returned_cases (hpc : w.pc = .returned k true) (io : Io) :
    GivesUp w io k ∨ Announces w io k ∨ Forgets w io k := by
  cases k with
  | connect => exact (returned_connect hpc io).imp_right .inl
  | interrupt => exact .inr (.inr (.inl rfl))
  | timeout => exact returned_timeout hpc io

end Worker

/-! ### Whole runs -/

namespace Journal

variable {t t' : Journal}

/-- A worker owes an ATR only on its way back from `worker_open_card()` with the card, and then the
ATR it has; or when it has given the connection up. -/
structure Inv (t : Journal) : Prop where
  tells : TellsAtr t.log
  clear : t.worker.pc.gotCard = false → t.worker.pc.unconnected = false →
    ∀ atr, ¬Owes t.log atr
  pending : t.worker.pc.gotCard = true →
    ∀ atr, Owes t.log atr ↔ atr = t.worker.atr ∧ hadCard t.log = false

theorem inv_start : Inv start := by
  have hno : ∀ pre e post, start.log ≠ pre ++ e :: post := by
    intro pre e post h
    simp [start] at h
  exact ⟨fun pre e post hlog => absurd hlog (hno pre e post),
    fun _ _ atr ⟨pre, mid, hlog, _⟩ => hno pre _ mid hlog, fun h => nomatch h⟩

theorem atr_handleSig (w : Worker) (sig : Signal) :
    (w.handleSig sig).pc = w.pc ∧ (w.handleSig sig).atr = w.atr := by
  cases sig with
  | mapDel n =>
      show w.handleSigMapdel.pc = w.pc ∧ w.handleSigMapdel.atr = w.atr
      unfold Worker.handleSigMapdel
      split_ifs <;> exact ⟨rfl, rfl⟩
  | mapAdd => exact ⟨rfl, rfl⟩

theorem gotCard_iff {pc : Pc} : pc.gotCard = true ↔ ∃ k, pc = .returned k true := by
  cases pc with
  | returned k ok => cases ok <;> simp [Pc.gotCard]
  | _ => simp [Pc.gotCard]

theorem returned_step {w w' : Worker} {v : View} {act : Act} {k : Caller} {ok : Bool}
    (hpc : w.pc = .returned k ok) (h : w.step v act = some w') :
    ∃ io, act = .cont io ∧ w' = w.afterTry ok io k := by
  cases act with
  | cont io =>
      simp only [Worker.step, hpc, Option.some.injEq] at h
      exact ⟨io, rfl, h.symm⟩
  | _ => simp [Worker.step, hpc] at h

theorem tells_returned {k : Caller} {io : Io} (v : View) (hpc : t.worker.pc = .returned k true) :
    t.tells (.run v (.cont io)) = true ↔
      hadCard t.log = true ∨ ¬Worker.Forgets t.worker io k := by
  unfold tells Worker.Forgets
  rw [hpc]
  cases k with
  | connect => simp
  | interrupt => simp
  | timeout =>
      simp only [Bool.or_eq_true, decide_eq_true_eq, reduceCtorEq, true_and, false_or, not_and,
        not_not, or_assoc]
      cases io.writeAtr <;> simp

theorem tells_elsewhere (hg : t.worker.pc.gotCard = false) (l : Label) : t.tells l = true := by
  unfold tells
  split
  · split
    · rename_i hpc
      rw [hpc] at hg
      cases hg
    · rename_i hpc
      rw [hpc] at hg
      cases hg
    · rfl
  · rfl

theorem Inv.signal {sig : Signal} (hI : Inv t) (hw : t'.worker = t.worker.handleSig sig)
    (hlog : t'.log = t.log) : Inv t' := by
  obtain ⟨hpc, hatr⟩ := atr_handleSig t.worker sig
  refine ⟨?_, ?_, ?_⟩
  · rw [hlog]
    exact hI.tells
  · rw [hlog, hw, hpc]
    exact hI.clear
  · rw [hlog, hw, hpc, hatr]
    exact hI.pending

theorem Inv.of_clear {log rest : List Evt} (htells : TellsAtr log) (hclear : ∀ atr, ¬Owes log atr)
    (hno : ∀ e ∈ rest, ∀ a, e ≠ .opened a) (hlog : t'.log = log ++ rest)
    (hg : t'.worker.pc.gotCard = false) : Inv t' := by
  refine ⟨?_, fun _ _ atr ho => ?_, fun hn => ?_⟩
  · rw [hlog]
    exact htells.append_clear hclear hno
  · rw [hlog] at ho
    exact hclear atr (ho.of_append hno)
  · rw [hg] at hn
    cases hn

theorem Inv.returned {k : Caller} {io : Io} {v : View} (hI : Inv t)
    (hpc : t.worker.pc = .returned k true) (hw : t'.worker = t.worker.afterTry true io k)
    (hlog : t'.log = t.log ++ t.worker.emits (.cont io) (t.worker.afterTry true io k))
    (hl : t.tells (.run v (.cont io)) = true) : Inv t' := by
  have hg : t.worker.pc.gotCard = true := gotCard_iff.mpr ⟨k, hpc⟩
  have hg' : t'.worker.pc.gotCard = false := by
    rw [hw]
    exact Worker.gotCard_afterTry true io k
  rcases Worker.returned_cases hpc io with ⟨hun, hes⟩ | ⟨front, rest, he, hfront, hrest⟩ |
    hf
  · refine ⟨?_, fun _ hu => ?_, fun hn => ?_⟩
    · rw [hlog]
      exact hI.tells.append fun e he => (hes e he).1
    · rw [hw, hun] at hu
      cases hu
    · rw [hg'] at hn
      cases hn
  · -- only this ATR can be owed when it is announced
    have hclear : ∀ atr, ¬Owes ((t.log ++ front) ++ [.sent t.worker.setAtr]) atr := by
      intro atr ho
      rw [owes_snoc] at ho
      rcases ho with ⟨he, _⟩ | ⟨ho, _, hns⟩
      · cases he
      · have howed := ho.of_append fun e he => (hfront e he).2
        rw [((hI.pending hg atr).mp howed).1] at hns
        exact hns _ rfl
    have htells : TellsAtr ((t.log ++ front) ++ [.sent t.worker.setAtr]) := by
      rw [tellsAtr_snoc]
      exact ⟨hI.tells.append fun e he => (hfront e he).1, fun hn => nomatch hn⟩
    have hlog' : t'.log = ((t.log ++ front) ++ [.sent t.worker.setAtr]) ++ rest := by
      rw [hlog, he]
      simp
    exact .of_clear htells hclear hrest hlog' hg'
  · have hcard := ((tells_returned v hpc).mp hl).resolve_right (not_not.mpr hf)
    obtain ⟨card, he⟩ := Worker.emits_forgets hpc hf
    have hclear : ∀ atr, ¬Owes t.log atr := by
      intro atr ho
      have hnone := ((hI.pending hg atr).mp ho).2
      rw [hcard] at hnone
      cases hnone
    rw [he] at hlog
    exact .of_clear hI.tells hclear (waits_ne_opened card) hlog hg'

theorem Inv.unconnected {v : View} {act : Act} (hI : Inv t)
    (hu : t.worker.pc.unconnected = true) (hw : t.worker.step v act = some t'.worker)
    (hlog : t'.log = t.log ++ t.worker.emits act t'.worker) : Inv t' := by
  rcases Worker.step_unconnected hw hu with ⟨hun, hng, he⟩ | ⟨rfl, hpc, he⟩
  · rw [he, List.append_nil] at hlog
    refine ⟨?_, fun _ hn => ?_, fun hn => ?_⟩
    · rw [hlog]
      exact hI.tells
    · rw [hun] at hn
      cases hn
    · rw [hng] at hn
      cases hn
  · have hclear : ∀ atr, ¬Owes (t.log ++ [.accepted]) atr := by
      intro atr ho
      rcases owes_snoc.mp ho with ⟨he, _⟩ | ⟨_, hna, _⟩
      · cases he
      · exact hna rfl
    have htells : TellsAtr (t.log ++ [.accepted]) :=
      tellsAtr_snoc.mpr ⟨hI.tells, fun hn => nomatch hn⟩
    have hlog' : t'.log = (t.log ++ [.accepted]) ++ [.waits false] := by
      rw [hlog, he]
      simp
    have hg' : t'.worker.pc.gotCard = false := by
      rw [hpc]
      rfl
    exact .of_clear htells hclear (waits_ne_opened false) hlog' hg'

theorem Inv.opened {v : View} {act : Act} {k : Caller} (hI : Inv t)
    (hclear : ∀ atr, ¬Owes t.log atr) (hpc : t.worker.pc = .opened k)
    (hw : t.worker.step v act = some t'.worker)
    (hlog : t'.log = t.log ++ t.worker.emits act t'.worker) : Inv t' := by
  obtain ⟨hpc', hatr, _, he⟩ := Worker.step_opened hw hpc
  rw [he] at hlog
  refine ⟨?_, fun hn => ?_, fun _ atr => ?_⟩
  · rw [hlog, tellsAtr_snoc]
    exact ⟨hI.tells, fun hn => nomatch hn⟩
  · rw [hpc'] at hn
    cases hn
  · rw [hlog, owes_snoc, hadCard_snoc, hatr]
    constructor
    · rintro (⟨heq, hcard⟩ | ⟨ho, _⟩)
      · exact ⟨(Evt.opened.inj heq).symm, hcard⟩
      · exact absurd ho (hclear atr)
    · rintro ⟨rfl, hcard⟩
      exact .inl ⟨rfl, hcard⟩

theorem Inv.elsewhere {v : View} {act : Act} (hI : Inv t) (hg : t.worker.pc.gotCard = false)
    (hw : t.worker.step v act = some t'.worker)
    (hlog : t'.log = t.log ++ t.worker.emits act t'.worker) : Inv t' := by
  cases hu : t.worker.pc.unconnected with
  | true => exact hI.unconnected hu hw hlog
  | false =>
      have hclear := hI.clear hg hu
      by_cases ho : ∃ k, t.worker.pc = .opened k
      · obtain ⟨k, hpc⟩ := ho
        exact hI.opened hclear hpc hw hlog
      · have ha : act ≠ .accept := by
          rintro rfl
          have hpc := (Option.ite_none_right_eq_some.mp hw).1
          rw [hpc] at hu
          cases hu
        have hno : ∀ e ∈ t.worker.emits act t'.worker, ∀ a, e ≠ .opened a := by
          intro e he a
          rcases Worker.mem_emits ha (fun k hk => ho ⟨k, hk⟩) he with
            ⟨st, r, rfl⟩ | ⟨pdu, rfl⟩ | ⟨card, rfl⟩ <;> exact nofun
        have hg' : t'.worker.pc.gotCard = false := by
          rw [Bool.eq_false_iff]
          intro hn
          obtain ⟨k, _, hpc, _⟩ := Worker.opened_of_gotCard hw hn
          exact ho ⟨k, hpc⟩
        exact .of_clear hI.tells hclear hno hlog hg'

/-- **A step that meets the condition keeps the invariant.** -/
theorem Inv.step {l : Label} (hI : Inv t) (h : t.next l = some t') (hl : t.tells l = true) :
    Inv t' := by
  rcases next_cases h with ⟨v, act, rfl, hw, hlog⟩ | ⟨sig, rfl, hw, hlog⟩
  · cases hg : t.worker.pc.gotCard with
    | true =>
        obtain ⟨k, hpc⟩ := gotCard_iff.mp hg
        obtain ⟨io, rfl, hw'⟩ := returned_step hpc hw
        rw [hw'] at hlog
        exact hI.returned hpc hw' hlog hl
    | false => exact hI.elsewhere hg hw hlog
  · exact hI.signal hw hlog

/-- A step that does not meet the condition leaves the client without the ATR. -/
theorem Inv.silent {l : Label} (hI : Inv t) (h : t.next l = some t') (hl : t.tells l = false) :
    ¬TellsAtr t'.log := by
  have hg : t.worker.pc.gotCard = true := by
    by_contra hg
    rw [tells_elsewhere (Bool.eq_false_iff.mpr hg)] at hl
    cases hl
  rcases next_cases h with ⟨v, act, rfl, hw, hlog⟩ | ⟨sig, rfl, _⟩
  · obtain ⟨k, hpc⟩ := gotCard_iff.mp hg
    obtain ⟨io, rfl, hw'⟩ := returned_step hpc hw
    have hnot : ¬(hadCard t.log = true ∨ ¬Worker.Forgets t.worker io k) := by
      rw [← tells_returned v hpc, hl]
      exact Bool.false_ne_true
    rw [not_or, not_not, Bool.not_eq_true] at hnot
    obtain ⟨card, he⟩ := Worker.emits_forgets hpc hnot.2
    rw [hlog, hw', he, tellsAtr_snoc]
    exact fun htell => htell.2 rfl t.worker.atr ((hI.pending hg _).mpr ⟨rfl, hnot.1⟩)
  · cases hl

/-- **In a run the worker tells every client the ATR of a newly opened card exactly when all steps
of the run meet the condition.** -/
theorem tellsAtr_iff (ls : List Label) {t : Journal} (h : Transition.exec next start ls = some t) :
    TellsAtr t.log ↔ Transition.execAll next tells start ls = true := by
  have key : ∀ (ls : List Label) (t : Journal), Transition.exec next start ls = some t →
      (Transition.execAll next tells start ls = true → Inv t) ∧
        (Transition.execAll next tells start ls = false → ¬TellsAtr t.log) := by
    intro ls
    induction ls using List.reverseRecOn with
    | nil =>
        intro t ht
        obtain rfl := Option.some.inj ht
        exact ⟨fun _ => inv_start, fun hn => absurd hn (by simp [Transition.execAll])⟩
    | append_singleton ls l ih =>
        intro t ht
        rw [Transition.exec_append, Option.bind_eq_some_iff] at ht
        obtain ⟨u, hu, ht⟩ := ht
        have hnext : u.next l = some t := by
          simpa only [Transition.exec, Option.bind_some, Option.bind_eq_some_iff,
            Option.some.injEq, exists_eq_right] using ht
        have hall : Transition.execAll next tells start (ls ++ [l]) =
            (Transition.execAll next tells start ls && u.tells l) := by
          rw [Transition.execAll_append next tells [l] ls start u hu]
          simp only [Transition.execAll, hnext, Bool.and_true]
        obtain ⟨hinv, hnot⟩ := ih u hu
        rw [hall]
        constructor
        · intro hc
          rw [Bool.and_eq_true] at hc
          exact (hinv hc.1).step hnext hc.2
        · intro hc
          rw [Bool.and_eq_false_iff] at hc
          cases hls : Transition.execAll next tells start ls with
          | false =>
              intro htell
              obtain ⟨es, hes⟩ : ∃ es, t.log = u.log ++ es := by
                rcases next_cases hnext with ⟨v, act, _, _, hlog⟩ | ⟨sig, _, _, hlog⟩
                · exact ⟨_, hlog⟩
                · exact ⟨[], by rw [hlog, List.append_nil]⟩
              rw [hes] at htell
              exact hnot hls htell.of_append
          | true =>
              rw [hls] at hc
              exact (hinv hls).silent hnext (hc.resolve_left (by simp))
  obtain ⟨hinv, hnot⟩ := key ls t h
  cases hc : Transition.execAll next tells start ls with
  | true => exact iff_of_true (hinv hc).tells rfl
  | false => exact iff_of_false (hnot hc) Bool.false_ne_true

/-- A client whose mapping is there is told the ATR. -/
theorem connect_tellsAtr :
    ∃ t, Transition.exec next start (.run cardView .boot :: connect) = some t ∧
      TellsAtr t.log := by
  obtain ⟨t, ht⟩ := Option.isSome_iff_exists.mp
    (show (Transition.exec next start (.run cardView .boot :: connect)).isSome = true by
      decide +kernel)
  exact ⟨t, ht, (tellsAtr_iff _ ht).mpr (by decide +kernel)⟩

/-- A process without a mapping. -/
def unmappedView : View := { cardView with byClient := fun _ => none }

/-- A client connects, and its mapping is added while the worker waits. -/
def lateMapping : List Label :=
  [.run cardView .boot, .run cardView .accept, .run cardView (.select .readable),
    .run unmappedView (.recv (some (.connectClientReq .remsimClient (some ⟨5, 0⟩))) cardIo),
    .run unmappedView (.cont cardIo), .run unmappedView (.cont cardIo), .signal .mapAdd,
    .run cardView (.select .eintr)] ++ goOn 7

/-- What the worker does up to the opening of the card. -/
def lateOpening : List Evt :=
  [.accepted, .waits false, .sent (.connectClientRes .remsimBankd .cardNotPresent), .waits false]

/-- The client with the late mapping is not told the ATR. -/
theorem lateMapping_not_told :
    ∃ t, Transition.exec next start lateMapping = some t ∧
      t.log = lateOpening ++ [.opened [0x3b, 0x00], .waits true] ∧ ¬TellsAtr t.log := by
  obtain ⟨t, ht⟩ := Option.isSome_iff_exists.mp
    (show (Transition.exec next start lateMapping).isSome = true by decide +kernel)
  have hrun : (Transition.exec next start lateMapping).map Journal.log =
      some (lateOpening ++ [.opened [0x3b, 0x00], .waits true]) := by decide +kernel
  rw [ht] at hrun
  have hlog : t.log = lateOpening ++ [.opened [0x3b, 0x00], .waits true] := Option.some.inj hrun
  refine ⟨t, ht, hlog, fun htell => ?_⟩
  have howes : Owes (lateOpening ++ [.opened [0x3b, 0x00]]) [0x3b, 0x00] :=
    ⟨lateOpening, [], rfl, rfl, List.not_mem_nil, fun _ => List.not_mem_nil⟩
  exact htell (lateOpening ++ [.opened [0x3b, 0x00]]) (.waits true) [] hlog rfl _ howes

end Journal

end Remsim
