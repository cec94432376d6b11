import Remsim.Journal

/-! # Card resets and the connections of a worker

A worker resets the card on the edges of two lines that its client reports.  The levels it compares
a report with are fields of the worker: they are set when the worker is created, and neither the
cleanup after a connection nor `accept()` sets them again.  `FollowsEdges` says that the resets on a
connection are those for the edges among its own reports, and `Unaffected` when what was reported
on earlier connections makes no difference. -/

namespace Remsim

/-- The last VCC level that was reported, present at first. -/
def lastVcc (sts : List SlotPhysStatus) : Bool :=
  (sts.filterMap SlotPhysStatus.vccPresent).getLast?.getD true

/-- The level of reset in the last report, inactive at first. -/
def lastReset (sts : List SlotPhysStatus) : Bool :=
  (sts.map SlotPhysStatus.resetActive).getLast?.getD false

/-- After these reports, a report of VCC absent while the last VCC level was present. -/
def ColdEdge (sts : List SlotPhysStatus) (st : SlotPhysStatus) : Prop :=
  st.vccPresent = some false ∧ lastVcc sts = true

/-- After these reports, a report of reset active, and not of VCC absent, while reset was
inactive. -/
def WarmEdge (sts : List SlotPhysStatus) (st : SlotPhysStatus) : Prop :=
  st.resetActive = true ∧ st.vccPresent ≠ some false ∧ lastReset sts = false

/-- The report in an event. -/
def Evt.report : Evt → Option SlotPhysStatus
  | .status st _ => some st
  | _ => none

/-- The reports in a journal. -/
def reports (log : List Evt) : List SlotPhysStatus := log.filterMap Evt.report

/-- The events of a connection show a cold reset exactly at its cold edges, and a warm reset exactly
at its warm edges. -/
def FollowsEdges (conn : List Evt) : Prop :=
  ∀ pre st r post, conn = pre ++ .status st r :: post →
    (r = some true ↔ ColdEdge (reports pre) st) ∧ (r = some false ↔ WarmEdge (reports pre) st)

/-- The first VCC level reported on the connection is not absent where absent was the last one
reported before, and its first report is no warm edge where reset was left active. -/
def Unaffected (past conn : List SlotPhysStatus) : Prop :=
  (lastVcc past = true ∨ (conn.filterMap SlotPhysStatus.vccPresent).head? ≠ some false) ∧
    (lastReset past = false ∨
      ∀ st, conn.head? = some st → st.resetActive = true → st.vccPresent = some false)

/-! ### Reports -/

theorem lastVcc_append (past sts : List SlotPhysStatus) :
    lastVcc (past ++ sts) =
      (sts.filterMap SlotPhysStatus.vccPresent).getLast?.getD (lastVcc past) := by
  unfold lastVcc
  rw [List.filterMap_append, ListLib.getLast?_getD_append]

theorem lastReset_append (past sts : List SlotPhysStatus) :
    lastReset (past ++ sts) =
      (sts.map SlotPhysStatus.resetActive).getLast?.getD (lastReset past) := by
  unfold lastReset
  rw [List.map_append, ListLib.getLast?_getD_append]

/-- The past matters for VCC only as long as no report says anything about it. -/
theorem lastVcc_append_eq (past sts : List SlotPhysStatus) :
    lastVcc (past ++ sts) = lastVcc sts ↔
      lastVcc past = true ∨ sts.filterMap SlotPhysStatus.vccPresent ≠ [] := by
  rw [lastVcc_append]
  exact ListLib.getLast?_getD_eq_iff _ _ _

/-- The past matters for reset only as long as there is no report. -/
theorem lastReset_append_eq (past sts : List SlotPhysStatus) :
    lastReset (past ++ sts) = lastReset sts ↔ lastReset past = false ∨ sts ≠ [] := by
  rw [lastReset_append]
  refine (ListLib.getLast?_getD_eq_iff _ _ _).trans ?_
  rw [ne_eq, List.map_eq_nil_iff]

/-- The levels after these reports. -/
def Lines.seen (sts : List SlotPhysStatus) : Lines := ⟨lastVcc sts, lastReset sts⟩

theorem Lines.seen_snoc (sts : List SlotPhysStatus) (st : SlotPhysStatus) :
    Lines.seen (sts ++ [st]) = (Lines.seen sts).report st := by
  unfold Lines.seen
  rw [lastVcc_append, lastReset_append]
  cases hv : st.vccPresent <;> simp [Lines.report, hv]

/-- The reset for a report, cold or warm. -/
def Lines.edge (e : Lines) (st : SlotPhysStatus) : Option Bool :=
  if st.vccPresent = some false then (if e.vccPresent then some true else none)
  else if st.resetActive then (if e.resetActive then none else some false)
  else none

theorem edge_eq_iff (sts : List SlotPhysStatus) (st : SlotPhysStatus) (r : Option Bool) :
    r = (Lines.seen sts).edge st ↔
      (r = some true ↔ ColdEdge sts st) ∧ (r = some false ↔ WarmEdge sts st) := by
  unfold Lines.edge Lines.seen ColdEdge WarmEdge
  by_cases hv : st.vccPresent = some false
  · cases lastVcc sts <;> rcases r with _ | _ | _ <;> simp [hv]
  · cases st.resetActive <;> cases lastReset sts <;> rcases r with _ | _ | _ <;> simp [hv]

theorem edge_congr_iff (e e' : Lines) (st : SlotPhysStatus) :
    e.edge st = e'.edge st ↔
      (st.vccPresent = some false → e.vccPresent = e'.vccPresent) ∧
        (st.resetActive = true → st.vccPresent ≠ some false → e.resetActive = e'.resetActive) := by
  unfold Lines.edge
  by_cases hv : st.vccPresent = some false
  · cases e.vccPresent <;> cases e'.vccPresent <;> simp [hv]
  · cases st.resetActive <;> cases e.resetActive <;> cases e'.resetActive <;> simp [hv]

/-- The reports of the past make no difference exactly when they leave the connection
unaffected. -/
theorem edges_iff_unaffected (past conn : List SlotPhysStatus) :
    (∀ a st b, conn = a ++ st :: b →
        (Lines.seen (past ++ a)).edge st = (Lines.seen a).edge st) ↔ Unaffected past conn := by
  have hcongr : ∀ a st, (Lines.seen (past ++ a)).edge st = (Lines.seen a).edge st ↔
      (st.vccPresent = some false →
          lastVcc past = true ∨ a.filterMap SlotPhysStatus.vccPresent ≠ []) ∧
        (st.resetActive = true → st.vccPresent ≠ some false → lastReset past = false ∨ a ≠ []) := by
    intro a st
    rw [edge_congr_iff, ← lastVcc_append_eq, ← lastReset_append_eq]
    exact Iff.rfl
  constructor
  · intro h
    constructor
    · by_contra hno
      rw [not_or, not_not] at hno
      obtain ⟨hpast, hhead⟩ := hno
      obtain ⟨vs, hvs⟩ := List.head?_eq_some_iff.mp hhead
      obtain ⟨a, st, b, hconn, hnone, hst, _⟩ := List.filterMap_eq_cons_iff.mp hvs
      rcases ((hcongr a st).mp (h a st b hconn)).1 hst with hv | hv
      · exact hpast hv
      · exact hv (List.filterMap_eq_nil_iff.mpr hnone)
    · by_cases hpast : lastReset past = false
      · exact .inl hpast
      · refine .inr fun st hhead hra => ?_
        by_contra hv
        obtain ⟨b, hb⟩ := List.head?_eq_some_iff.mp hhead
        rcases ((hcongr [] st).mp (h [] st b hb)).2 hra hv with hr | hr
        · exact hpast hr
        · exact hr rfl
  · rintro ⟨hvcc, hreset⟩ a st b hconn
    rw [hcongr]
    refine ⟨fun hst => ?_, fun hra hv => ?_⟩
    · refine hvcc.imp_right fun hhead ha => hhead ?_
      rw [hconn, List.filterMap_append, ha, List.nil_append, List.filterMap_cons_some hst]
      rfl
    · refine hreset.imp_right fun hfirst ha => hv (hfirst st ?_ hra)
      rw [hconn, ha]
      rfl

/-! ### What a step reports -/

namespace Worker

variable {w w' : Worker} {v : View}

theorem lines_pcscGetAtr (io : Io) : (w.pcscGetAtr io).1.lines = w.lines := by
  unfold pcscGetAtr
  split <;> rfl

theorem lines_pcscConnectSlotRegex (re : Regex) (name : String) (io : Io) :
    (w.pcscConnectSlotRegex re name io).1.lines = w.lines := by
  unfold pcscConnectSlotRegex
  split
  · cases io.readers with
    | none => rfl
    | some rs =>
        simp only
        cases rs.find? (re.exec name) with
        | none => rfl
        | some r =>
            simp only
            split <;> rfl
  · rfl

theorem lines_pcscOpenCard (re : Regex) (name : String) (io : Io) :
    (w.pcscOpenCard re name io).1.lines = w.lines := by
  unfold pcscOpenCard
  split
  · simp only
    split
    · exact lines_pcscGetAtr io
    · have hc := lines_pcscConnectSlotRegex (w := { w with hContext := true }) re name io
      split
      · rename_i u hu
        rw [hu] at hc
        exact hc
      · rename_i u hu
        rw [hu] at hc
        exact (lines_pcscGetAtr io).trans hc
  · rfl

theorem lines_afterTry (ok : Bool) (io : Io) (k : Caller) : (w.afterTry ok io k).lines = w.lines := by
  cases k with
  | connect =>
      unfold afterTry
      generalize (if ok then ResultCode.ok else .cardNotPresent) = r
      simp only
      split_ifs
      · exact lines_sendRspro _ _
      · exact lines_sendRspro _ _
      · exact lines_again.trans ((lines_sendRspro _ _).trans (lines_sendRspro _ _))
      · exact lines_again.trans (lines_sendRspro _ _)
  | interrupt => rfl
  | timeout =>
      simp only [afterTry]
      refine lines_again.trans ?_
      split_ifs
      · exact lines_sendRspro _ _
      · rfl

theorem lines_handleSig (sig : Signal) : (w.handleSig sig).lines = w.lines := by
  cases sig with
  | mapDel n =>
      show w.handleSigMapdel.lines = w.lines
      unfold handleSigMapdel
      split_ifs <;> rfl
  | mapAdd => rfl

/-- **A step changes the levels only by handling a report.** -/
theorem step_lines {act : Act} (h : w.step v act = some w') :
    w'.lines = (w.lines.run act.report.toList).1 := by
  obtain ⟨pdu, io, rfl, rfl⟩ | ⟨k, io, name, ok, u, _, rfl, hu, rfl⟩ | ⟨k, ok, io, _, rfl, rfl⟩ |
    ⟨k, io, _, rfl, rfl⟩ | ⟨hrep, hlines, _⟩ := step_shape h
  · exact lines_handleRspro v io pdu
  · have hlines := lines_pcscOpenCard (w := w) v.regex name io
    rw [hu] at hlines
    exact hlines
  · exact lines_afterTry ok io k
  · rfl
  · rw [hrep]
    exact hlines

theorem reports_sent (pdus : List RsproPDU) : reports (pdus.map .sent) = [] := by
  rw [reports, List.filterMap_map, List.filterMap_eq_nil_iff]
  exact fun _ _ => rfl

theorem reports_waitEvents : reports w'.waitEvents = [] := by
  unfold waitEvents
  split_ifs <;> rfl

/-- A step adds the report that it handles, with the reset for it, and no other one. -/
theorem emits_report {act : Act} (h : w.step v act = some w') :
    ∃ es, w.emits act w' =
        (act.report.map fun st => Evt.status st (w.lines.edge st)).toList ++ es ∧
      reports es = [] := by
  have hstatus : w.statusEvents act =
      (act.report.map fun st => Evt.status st (w.lines.edge st)).toList := by
    cases act with
    | recv pdu io =>
        cases pdu with
        | none => rfl
        | some pdu => cases pdu <;> rfl
    | _ => rfl
  by_cases ha : act = .accept
  · subst ha
    refine ⟨_, rfl, ?_⟩
    exact reports_waitEvents
  · by_cases ho : ∃ k, w.pc = .opened k
    · obtain ⟨k, hpc⟩ := ho
      have hrep : act.report = none := by
        cases act with
        | recv pdu io => simp [step, hpc] at h
        | _ => rfl
      refine ⟨[.opened w.atr], ?_, rfl⟩
      rw [(step_opened h hpc).2.2.2, hrep]
      rfl
    · refine ⟨(w.written w').map .sent ++ w'.waitEvents, ?_, ?_⟩
      · rw [emits_eq ha fun k hk => ho ⟨k, hk⟩, hstatus, List.append_assoc]
      · rw [reports, List.filterMap_append]
        exact List.append_eq_nil_iff.mpr ⟨reports_sent _, reports_waitEvents⟩

end Worker

/-! ### Whole runs -/

/-- Every report in the journal has its reset: the edge among all reports of the thread. -/
def EdgesSeen (log : List Evt) : Prop :=
  ∀ pre st r post, log = pre ++ .status st r :: post → r = (Lines.seen (reports pre)).edge st

theorem EdgesSeen.snoc {log : List Evt} (h : EdgesSeen log) {e : Evt}
    (he : ∀ st r, e = .status st r → r = (Lines.seen (reports log)).edge st) :
    EdgesSeen (log ++ [e]) := by
  intro pre st r post hlog
  obtain ⟨rfl, hst, rfl⟩ | ⟨rest, rfl, hpre⟩ := ListLib.append_singleton_eq_iff.mp hlog
  · exact he st r hst.symm
  · exact h pre st r rest hpre

theorem EdgesSeen.append {log : List Evt} (h : EdgesSeen log) {es : List Evt}
    (hes : reports es = []) : EdgesSeen (log ++ es) := by
  induction es using List.reverseRecOn with
  | nil =>
      rw [List.append_nil]
      exact h
  | append_singleton es e ih =>
      rw [reports, List.filterMap_append] at hes
      obtain ⟨hes, he⟩ := List.append_eq_nil_iff.mp hes
      rw [← List.append_assoc]
      refine (ih hes).snoc fun st r hst => ?_
      rw [hst] at he
      cases he

namespace Journal

variable {t : Journal}

/-- **In every run the worker has seen all reports of the thread, and resets the card on the edges
among them.** -/
theorem reach_edgesSeen (h : lts.Reach Transition.Lts.Any t) :
    EdgesSeen t.log ∧ t.worker.lines = Lines.seen (reports t.log) := by
  refine h.invariant
    (I := fun t => EdgesSeen t.log ∧ t.worker.lines = Lines.seen (reports t.log)) ?_ ?_
  · rintro _ rfl
    refine ⟨fun pre st r post hlog => ?_, rfl⟩
    exact absurd hlog (by simp [start])
  · rintro t l t' ⟨hs, hl⟩ _ hst
    rcases next_cases hst with ⟨v, act, rfl, hw, hlog⟩ | ⟨sig, rfl, hw, hlog⟩
    · have hlines := Worker.step_lines hw
      obtain ⟨es, hes, hrep⟩ := Worker.emits_report hw
      rw [hes] at hlog
      cases ha : act.report with
      | none =>
          rw [ha] at hlog hlines
          have hlog : t'.log = t.log ++ es := hlog
          rw [hlog]
          refine ⟨hs.append hrep, ?_⟩
          rw [reports, List.filterMap_append]
          have hrep : es.filterMap Evt.report = [] := hrep
          rw [hrep, List.append_nil]
          exact hlines.trans hl
      | some st =>
          rw [ha] at hlog hlines
          have hlog : t'.log = (t.log ++ [.status st (t.worker.lines.edge st)]) ++ es := by
            rw [hlog, List.append_assoc]
            rfl
          rw [hlog]
          refine ⟨EdgesSeen.append (hs.snoc fun st' r hst => ?_) hrep, ?_⟩
          · obtain ⟨rfl, rfl⟩ := Evt.status.inj hst
            rw [hl]
          · have hreports : reports ((t.log ++ [.status st (t.worker.lines.edge st)]) ++ es) =
                reports t.log ++ [st] := by
              have hrep : es.filterMap Evt.report = [] := hrep
              rw [reports, List.filterMap_append, hrep, List.append_nil, List.filterMap_append]
              rfl
            rw [hreports, Lines.seen_snoc, ← hl]
            exact hlines
    · rw [hlog, hw]
      exact ⟨hs, (Worker.lines_handleSig sig).trans hl⟩

/-- **The resets on a connection follow the edges of its own reports exactly when nothing that an
earlier connection reported last is in their way.** -/
theorem followsEdges_iff (h : lts.Reach Transition.Lts.Any t) {past conn : List Evt}
    (hlog : t.log = past ++ .accepted :: conn) :
    FollowsEdges conn ↔ Unaffected (reports past) (reports conn) := by
  have hs := (reach_edgesSeen h).1
  -- a report on the connection has the reset for the edge among all reports
  have hedge : ∀ pre st r post, conn = pre ++ .status st r :: post →
      r = (Lines.seen (reports past ++ reports pre)).edge st := by
    intro pre st r post hconn
    have := hs (past ++ .accepted :: pre) st r post (by rw [hlog, hconn]; simp)
    rw [this, reports, List.filterMap_append]
    rfl
  rw [← edges_iff_unaffected]
  constructor
  · intro hf a st b hconn
    obtain ⟨pre, rest, rfl, hpre, hrest⟩ := List.filterMap_eq_append_iff.mp hconn
    obtain ⟨skip, e, post, rfl, hskip, he, _⟩ := List.filterMap_eq_cons_iff.mp hrest
    have hreports : reports (pre ++ skip) = a := by
      have hnil : skip.filterMap Evt.report = [] := List.filterMap_eq_nil_iff.mpr hskip
      rw [reports, List.filterMap_append, hpre, hnil, List.append_nil]
    cases e with
    | status st' r =>
        obtain rfl : st' = st := Option.some.inj he
        have hsplit : pre ++ (skip ++ .status st' r :: post) =
            (pre ++ skip) ++ .status st' r :: post := (List.append_assoc _ _ _).symm
        have hr := hedge _ st' r post hsplit
        have hf := (edge_eq_iff _ st' r).mpr (hf _ st' r post hsplit)
        rw [hreports] at hr hf
        rw [← hr, ← hf]
    | _ => cases he
  · intro hsame pre st r post hconn
    rw [← edge_eq_iff, hedge pre st r post hconn]
    refine hsame (reports pre) st (reports post) ?_
    rw [hconn, reports, List.filterMap_append]
    rfl

/-- A client reports VCC absent and reset active, and leaves. -/
def powersOff : List Label :=
  connect ++ receive (some (.clientSlotStatusInd ⟨true, some false⟩)) ++ receive none ++ goOn 1

/-- A worker that has served one such client. -/
def oneClient : Journal := Transition.after next start (.run cardView .boot :: powersOff)

/-- A worker that has served two of them. -/
def twoClients : Journal :=
  Transition.after next start (.run cardView .boot :: powersOff ++ powersOff)

theorem reach_oneClient : lts.Reach Transition.Lts.Any oneClient :=
  Transition.reach_after rfl (by decide +kernel) (by decide +kernel)

/-- The first client has its card reset. -/
theorem firstClient_reset :
    oneClient.log = .accepted :: oneClient.log.drop 1 ∧ FollowsEdges (oneClient.log.drop 1) := by
  have hlog : oneClient.log = [] ++ .accepted :: oneClient.log.drop 1 := by decide +kernel
  exact ⟨hlog, (followsEdges_iff reach_oneClient hlog).mpr ⟨.inl rfl, .inl rfl⟩⟩

/-- The second client does the same, and the card is not reset for it. -/
theorem secondClient_not_reset :
    lts.Reach Transition.Lts.Any twoClients ∧
      twoClients.log = oneClient.log ++ .accepted :: twoClients.log.drop 9 ∧
      .accepted ∉ twoClients.log.drop 9 ∧ ¬FollowsEdges (twoClients.log.drop 9) := by
  refine ⟨Transition.reach_after rfl (by decide +kernel) (by decide +kernel), by decide +kernel,
    by decide +kernel, fun hf => ?_⟩
  have hcold := (hf ((twoClients.log.drop 9).take 5) ⟨true, some false⟩ none [.waits true]
    (by decide +kernel)).1
  have hedge : ColdEdge (reports ((twoClients.log.drop 9).take 5)) ⟨true, some false⟩ :=
    ⟨rfl, by decide +kernel⟩
  exact absurd (hcold.mpr hedge) (by decide)

end Journal

end Remsim
