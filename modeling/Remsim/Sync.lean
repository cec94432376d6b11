import Remsim.World

/-! # When server and bankd agree

Three results about the server and a bankd whose control connection is idle: the active mappings of
the server are at the bankd (`active_present`), deleted mappings are not (`deleted_absent`), and
after the bankd has connected again its table is that of the server (`reconnected_equal`).

None of them holds in all runs.  The server does not read the result of a create response, it
forgets a deletion that meets an unacknowledged mapping, its eventfd callback has the test for
empty lists inverted, and on a new connection it repeats the create requests but no remove request.
The conditions below exclude the steps where one of these matters, and each result comes with a run
that shows why. -/

namespace Remsim
namespace World

variable (bank : BankCfg) (w : World)

/-! ### Conditions on steps -/

/-- The step does not take the bankd's control connection down. -/
def Steady : Label → Prop
  | .srv (.closed c) => w.up c = none
  | .srv (.kaTimeout c) => w.up c = none
  | .srv (.timeout c) => w.up c = none
  | .read => ∀ l ∈ w.srvc.link, ∀ tx ∈ (w.srv.sent l.conn)[l.read]?,
      (l.dispatch (bank.bankdSrvcHandleRx w.sm tx.pdu).event).link ≠ none
  | .hangup => False
  | _ => True

/-- A new mapping of the bank has a slot that the bankd accepts, and no slot of a mapping that was
deleted before the bankd acknowledged it: one on `maps_unack` or `maps_active` that is not on the
global list. -/
def ClearPost : Server.Op → Prop
  | .post bs cs => bs.bankId = bank.bankId → bs.slotNr < bank.numSlots ∧
      ∀ c ∈ w.srv.bankdConnById bank.bankId,
        ∀ m ∈ w.srv.maps c .mapsUnack ++ w.srv.maps c .mapsActive, m ∉ w.srv.mappings →
          ∀ x ∈ w.srv.heap m, ¬Clash (bs, cs) x.slots
  | _ => True

/-- No unacknowledged mapping of the bank is deleted, and the eventfd callback does not find both
new mappings and deletions of the bank. -/
def Orderly : Server.Op → Prop
  | .del mapId => ∀ m ∈ w.srv.mapById mapId, ∀ c ∈ w.srv.bankdConnById bank.bankId,
      m ∉ w.srv.maps c .mapsUnack
  | .globalReset => ∀ m ∈ w.srv.mappings, ∀ c ∈ w.srv.bankdConnById bank.bankId,
      m ∉ w.srv.maps c .mapsUnack
  | .eventFd => ∀ c ∈ w.srv.bankdConnById bank.bankId,
      w.srv.maps c .mapsNew = [] ∨ w.srv.maps c .mapsDelreq = []
  | _ => True

/-- When the bankd's `ConnectBankReq` is accepted, the mappings of the server supersede what the
bankd holds. -/
def Resumes : Server.Op → Prop
  | .rx c (.connectBankReq _ _ _) => ∀ l ∈ w.srvc.link, l.conn = c →
      w.srv.accepts c .bankConn = true → w.srv.bankdConnById bank.bankId = none →
        w.srv.book.Superseded bank w.sm.table
  | _ => True

variable {bank} {w} {w' : World} {l : Link} {c : ConnId} {lab : Label} {op : Server.Op}

instance : Decidable (w.Steady bank lab) := by
  cases lab with
  | srv op => cases op <;> dsimp only [Steady] <;> infer_instance
  | _ => dsimp only [Steady]; infer_instance

instance : Decidable (w.ClearPost bank op) := by
  cases op <;> dsimp only [ClearPost] <;> infer_instance

instance : Decidable (w.Orderly bank op) := by
  cases op <;> dsimp only [Orderly] <;> infer_instance

instance {b : Book} {t : Table} : Decidable (b.Superseded bank t) :=
  decidable_of_iff ((∀ d ∈ t, ∃ e ∈ b.accepted bank b.mappings, e.1 = d.1) ∧
      ∀ d ∈ t, ∀ e ∈ b.accepted bank b.mappings, d.2 = e.2 → d.1 = e.1)
    ⟨fun h => ⟨h.1, h.2⟩, fun h => ⟨h.mapped, h.client⟩⟩

instance : Decidable (w.Resumes bank op) := by
  cases op with
  | rx c pdu => cases pdu <;> dsimp only [Resumes] <;> infer_instance
  | _ => dsimp only [Resumes]; infer_instance

theorem Sound.bankdConnById (h : w.Sound bank) (hl : w.srvc = .up l) (hb : l.conn ∈ w.srv.banks) :
    w.srv.bankdConnById bank.bankId = some l.conn := by
  rw [h.good.bankdConnById_iff]
  cases hi : w.srv.book.bankOf l.conn with
  | none => exact absurd hb (h.good.bankOf_eq_none.mp hi)
  | some i => rw [h.ids l.conn i (h.link l hl) hi]

/-! ### The conditions in terms of the ledger -/

theorem ClearPost.postClear (h : w.Sound bank) (hc : w.ClearPost bank op) (hl : w.srvc = .up l)
    (hb : l.conn ∈ w.srv.banks) : w.srv.ledger.PostClear l.conn (w.srv.event op) := by
  have hconn := h.bankdConnById hl hb
  cases op with
  | post bs cs =>
      intro hdst m e hm hg he
      obtain ⟨x, hx, rfl⟩ := Option.map_eq_some_iff.mp he
      have hid : bs.bankId = bank.bankId :=
        h.ids l.conn _ (h.link l hl) ((h.good.bankdConnById_iff _ _).mp hdst)
      exact (hc hid).2 l.conn hconn m (List.mem_append.mpr hm) hg x hx
  | rx k pdu =>
      show w.srv.ledger.PostClear l.conn (w.srv.rxEvent k pdu)
      rcases w.srv.rxEvent_cases k pdu with e | ⟨_, _, _, e⟩ | ⟨_, _, e⟩ | ⟨_, _, e⟩ <;>
        (rw [e]; trivial)
  | push k => simp only [Server.event]; split_ifs <;> trivial
  | closed k => simp only [Server.event]; split_ifs <;> trivial
  | kaTimeout k => simp only [Server.event]; split_ifs <;> trivial
  | _ => trivial

theorem Orderly.orderly (h : w.Sound bank) (ho : w.Orderly bank op) (hl : w.srvc = .up l)
    (hb : l.conn ∈ w.srv.banks) : w.srv.ledger.Orderly l.conn (w.srv.event op) := by
  have hconn := h.bankdConnById hl hb
  cases op with
  | del mapId => exact fun m hm => ho m (Option.mem_toList.mp hm) l.conn hconn
  | globalReset => exact fun m hm => ho m hm l.conn hconn
  | eventFd => exact ho l.conn hconn
  | rx k pdu =>
      show w.srv.ledger.Orderly l.conn (w.srv.rxEvent k pdu)
      rcases w.srv.rxEvent_cases k pdu with e | ⟨_, _, _, e⟩ | ⟨_, _, e⟩ | ⟨_, _, e⟩ <;>
        (rw [e]; trivial)
  | push k => simp only [Server.event]; split_ifs <;> trivial
  | closed k => simp only [Server.event]; split_ifs <;> trivial
  | kaTimeout k => simp only [Server.event]; split_ifs <;> trivial
  | _ => trivial

theorem Resumes.superseded (h : w.Sound bank) (hr : w.Resumes bank op) (hl : w.srvc = .up l)
    (hs : SrvStep w op w') (hev : w.srv.event op = .connect l.conn bank.bankId) :
    w.srv.book.Superseded bank w.sm.table := by
  have hv := (Server.step_performs h.good hs.step).valid
  rw [hev] at hv
  obtain ⟨i, n, rfl, hi⟩ := Server.event_eq_connect hev
  refine hr l (Srvc.mem_link.mpr hl) rfl ?_ (h.good.bankdConnById_none.mpr hv.2)
  simp only [Server.event, Server.rxEvent] at hev
  split_ifs at hev with hacc
  simp only [Bool.and_eq_true] at hacc
  exact hacc.1.1

/-! ### Steady connections -/

/-- Until its connection is a bank of the server, the bankd has got no request and has no
mappings. -/
structure Fresh (w : World) : Prop where
  up : ∀ l, w.srvc = .up l → l.conn ∈ w.srv.banks ∨
    ((w.srv.sent l.conn).filter Tx.isRequest = [] ∧ w.sm.table = [])
  down : w.srvc.link = none → w.sm.table = []

theorem Fresh.srvStep (h : w.Fresh) (hso : w.Sound bank) (hs : SrvStep w op w')
    (hcl : ∀ l, w.srvc = .up l → op ≠ .closed l.conn) : w'.Fresh := by
  have hp := Server.step_performs hso.good hs.step
  refine ⟨fun l hl => ?_, fun hn => ?_⟩
  · rw [hs.srvc] at hl
    by_cases hb' : l.conn ∈ w'.srv.banks
    · exact .inl hb'
    · rcases h.up l hl with hb | ⟨hreq, ht⟩
      · have hev := hp.event_drop hso.good hb hb'
        exact absurd (Server.event_eq_drop hev).1 (hcl l hl)
      · by_cases hb : l.conn ∈ w.srv.banks
        · have hev := hp.event_drop hso.good hb hb'
          exact absurd (Server.event_eq_drop hev).1 (hcl l hl)
        · obtain ⟨extra, he, hr⟩ := hp.sent l.conn
          refine .inr ⟨?_, by rw [hs.sm]; exact ht⟩
          rw [he, List.filter_append, hreq, hr, hp.requests_eq_nil hso.good hb hb']
          rfl
  · rw [hs.sm]
    exact h.down (by rw [← hs.srvc]; exact hn)

/-- **A steady step keeps the bankd fresh.** -/
theorem Fresh.step (h : w.Fresh) (hso : w.Sound bank) (hst : (lts bank).step w lab w')
    (hsteady : w.Steady bank lab) : w'.Fresh := by
  rcases step_cases hst with ⟨op, ho, hs⟩ | ⟨addr, rfl, hr, rfl⟩ | ⟨l, tx, rfl, hl, htx, rfl⟩ |
    ⟨l, rfl, hl, rfl⟩
  · refine h.srvStep hso hs fun l hl => ?_
    rintro rfl
    have hup := hso.link l hl
    cases lab with
    | srv op' =>
        obtain rfl := Option.some.inj ho
        rw [show w.up l.conn = none from hsteady] at hup
        cases hup
    | deliver k =>
        obtain ⟨q, _, hq⟩ := Option.bind_eq_some_iff.mp ho
        obtain ⟨p, _, hp⟩ := Option.map_eq_some_iff.mp hq
        cases hp
    | _ => cases ho
  · refine ⟨fun l hl => .inr ?_, fun hn => by cases hn⟩
    rw [← Srvc.up.inj hl]
    have hnew : w.srv.nextConn ∉ w.srv.banks := by
      intro hb
      obtain ⟨k, hk⟩ := hso.good.bank_conn hb
      exact absurd (hso.good.roster.fresh _ k hk) (Nat.lt_irrefl _)
    exact ⟨hso.unasked _ hnew (.inr (Nat.le_refl _)), h.down (by rw [hr]; rfl)⟩
  · have hstay := hsteady l (Srvc.mem_link.mpr hl) tx htx
    have hkeep : (w.handle bank l tx.pdu).srvc.link ≠ none := by
      show (Link.dispatch { l with read := l.read + 1 } _).link ≠ none
      cases hev : (bank.bankdSrvcHandleRx w.sm tx.pdu).event with
      | none => nofun
      | some ev =>
          rw [hev] at hstay
          cases ev with
          | disconnect => exact absurd rfl hstay
          | clientConnRes r =>
              simp only [Link.dispatch] at hstay ⊢
              split_ifs at hstay ⊢
              · nofun
              · nofun
              · exact absurd rfl hstay
    refine ⟨fun l' hl' => ?_, fun hn => absurd hn hkeep⟩
    obtain ⟨hc, _⟩ := Link.dispatch_up hl'
    rw [hc]
    refine (h.up l hl).imp id fun ⟨hreq, ht⟩ => ⟨hreq, ?_⟩
    have hno : tx.isRequest = false := by
      have := List.filter_eq_nil_iff.mp hreq tx (List.mem_of_getElem? htx)
      simpa using this
    show (bank.bankdSrvcHandleRx w.sm tx.pdu).slotmaps.table = []
    rw [(BankCfg.table_bankdSrvcHandleRx bank hso.wf tx.pdu).2,
      BankCfg.tableStep_of_not_request _ hno]
    exact ht
  · exact hsteady.elim

theorem fresh_initial : initial.Fresh := ⟨fun _ => nofun, fun _ => rfl⟩

theorem Fresh.superseded (h : w.Fresh) (hso : w.Sound bank) (hs : SrvStep w op w')
    (hl : w.srvc = .up l) (hev : w.srv.event op = .connect l.conn bank.bankId) :
    w.srv.book.Superseded bank w.sm.table := by
  have hv := (Server.step_performs hso.good hs.step).valid
  rw [hev] at hv
  have hb : l.conn ∉ w.srv.banks := hso.good.bankOf_eq_none.mp hv.1
  obtain ⟨_, ht⟩ := (h.up l hl).resolve_left hb
  rw [ht]
  exact ⟨fun d hd => (List.not_mem_nil hd).elim, fun d hd => (List.not_mem_nil hd).elim⟩

/-! ### Runs -/

/-- A bankd with two slots. -/
def twoSlots : BankCfg := ⟨1, 2⟩

/-- The state after a run. -/
def after (ls : List Label) : World :=
  (Transition.exec (next twoSlots) initial ls).getD initial

theorem reach_after {C : World → Label → Prop} [∀ w lab, Decidable (C w lab)] {ls : List Label}
    (h : (Transition.exec (next twoSlots) initial ls).isSome = true)
    (ha : Transition.execAll (next twoSlots) (fun w lab => decide (C w lab)) initial ls = true) :
    (lts twoSlots).Reach C (after ls) :=
  Transition.reach_after rfl h ha

/-- The bankd connects, a mapping is posted and its create request is sent. -/
def posted (bs : BankSlot) (cs : ClientSlot) : List Label :=
  [.dial (some 1), .deliver 0, .read, .srv (.post bs cs), .srv .eventFd]

/-- The request is handled and the response received. -/
def answered (bs : BankSlot) (cs : ClientSlot) : List Label := posted bs cs ++ [.read, .deliver 0]

/-! ### Active mappings are present -/

/-- The bankd accepts the slots of all mappings of its bank. -/
def Served (bank : BankCfg) (w : World) : Prop :=
  ∀ m e, w.srv.book.slotsOf m = some e → e.1.bankId = bank.bankId → bank.serves e.1 = true

theorem Served.srvStep (h : w.Served bank) (hso : w.Sound bank) (hs : SrvStep w op w')
    (hc : w.ClearPost bank op) : w'.Served bank := by
  have hp := Server.step_performs hso.good hs.step
  have hbook : w'.srv.book = (w.srv.ledger.apply (w.srv.event op)).toBook :=
    congrArg Ledger.toBook hp.ledger
  intro m e he hid
  rw [hbook] at he
  rcases Ledger.slotsOf_apply hso.good.book he with he | ⟨dst, hev⟩
  · exact h m e he hid
  · cases op with
    | post bs cs =>
        obtain ⟨rfl, _, _⟩ := Event.post.inj hev
        simp only [BankCfg.serves, hid, (hc hid).1, decide_true, Bool.and_self]
    | rx k pdu =>
        change w.srv.rxEvent k pdu = _ at hev
        rcases w.srv.rxEvent_cases k pdu with e | ⟨_, _, _, e⟩ | ⟨_, _, e⟩ | ⟨_, _, e⟩ <;>
          (rw [e] at hev; cases hev)
    | push k => simp only [Server.event] at hev; split_ifs at hev
    | closed k => simp only [Server.event] at hev; split_ifs at hev
    | kaTimeout k => simp only [Server.event] at hev; split_ifs at hev
    | _ => cases hev

theorem Served.step (h : w.Served bank) (hso : w.Sound bank) (hst : (lts bank).step w lab w')
    (hc : ∀ op ∈ w.opOf lab, w.ClearPost bank op) : w'.Served bank := by
  rcases step_cases hst with ⟨op, ho, hs⟩ | ⟨addr, _, _, rfl⟩ | ⟨l, tx, _, _, _, rfl⟩ |
    ⟨l, _, _, rfl⟩
  · exact h.srvStep hso hs (hc op ho)
  · exact h
  · exact h
  · exact h

/-- The table of a bankd that has read everything is the final one. -/
theorem Idle.finalTable (h : w.Idle bank l) : w.finalTable bank l = w.sm.table := by
  rw [World.finalTable, h.down]
  rfl

theorem Idle.mem_banks (h : w.Idle bank l) (hso : w.Sound bank) :
    l.conn ∈ w.srv.banks ∧ w.srv.book.bankOf l.conn = some bank.bankId := by
  have hb := (hso.good.bankdConnById_iff _ _).mp h.bank
  exact ⟨(Server.bankOf_eq_some.mp hb).1, hb⟩

theorem Idle.listed (h : w.Idle bank l) (hso : w.Sound bank) {m : MapId} {x : SlotMapping}
    (hx : w.srv.heap m = some x) (hb : x.bank.bankId = bank.bankId) {k : BankList}
    (hst : x.state = k.state) (hk : k ≠ .mapsNew) : m ∈ w.srv.book.maps l.conn k := by
  obtain ⟨c, hm, hc⟩ := hso.good.book.mem_of_state hx hst hk
  rw [hb] at hc
  rwa [hso.good.book.bankUnique c l.conn _ hc (h.mem_banks hso).2] at hm

/-- **Active mappings are at the bankd.**  In every run in which the control connection stays up
and new mappings have slots that the bankd accepts and that no mapping deleted before its
acknowledgement has, when nothing is on its way the bankd has every active mapping of its bank. -/
theorem active_present
    (h : (lts bank).Reach (fun w lab => w.Steady bank lab ∧
      ∀ op ∈ w.opOf lab, w.ClearPost bank op) w)
    (hi : w.Idle bank l) {m : MapId} {x : SlotMapping} (hx : w.srv.heap m = some x)
    (hb : x.bank.bankId = bank.bankId) (hst : x.state = .active) : x.slots ∈ w.sm.table := by
  have hinv : w.Fresh ∧ w.Agreed bank ∧ w.Served bank := by
    refine h.invariant_of (I := fun w => w.Fresh ∧ w.Agreed bank ∧ w.Served bank) (J := Sound bank)
      (fun _ => reach_sound) ?_ ?_
    · rintro w (rfl : w = initial)
      exact ⟨fresh_initial, fun _ => nofun, fun _ _ => nofun⟩
    · rintro w lab w' hso _ ⟨hf, ha, hsv⟩ ⟨hsteady, hc⟩ hstep
      refine ⟨hf.step hso hstep hsteady, ha.step hso hstep fun op ho hs => ?_,
        hsv.step hso hstep hc⟩
      exact ha.srvStep hso hs (fun l hl hb => (hc op ho).postClear hso hl hb)
        fun l hl hev => hf.superseded hso hs hl hev
  obtain ⟨_, hagree, hserved⟩ := hinv
  have hso := reach_sound h
  have hslots : w.srv.book.slotsOf m = some x.slots := by
    show Option.map _ (w.srv.heap m) = _
    rw [hx]
    rfl
  have hm : m ∈ w.srv.book.maps l.conn .mapsActive := hi.listed hso hx hb hst (by decide)
  rw [← hi.finalTable, (hagree l hi.link (hi.mem_banks hso).1).table]
  exact ⟨hserved m _ hslots hb, m, .inl (.inr hm), hslots⟩

/-- The mapping of a run that meets the conditions is active and at the bankd. -/
theorem answered_present :
    ((⟨1, 0⟩, ⟨5, 0⟩) : BankSlot × ClientSlot) ∈ (after (answered ⟨1, 0⟩ ⟨5, 0⟩)).sm.table :=
  active_present (l := ⟨0, true, 2⟩) (m := 0)
    (x := ⟨⟨1, 0⟩, ⟨5, 0⟩, .active⟩) (reach_after (by decide) (by decide))
    ⟨by decide, by decide, by decide, by decide, by decide⟩ (by decide) (by decide) (by decide)

/-- **Refused mappings become active.**  The bankd refuses a mapping for a slot it does not have,
and the server makes it active nonetheless. -/
theorem refused_active :
    ¬∀ w l m x, (lts twoSlots).Reach (Steady twoSlots) w → w.Idle twoSlots l →
      w.srv.heap m = some x → x.bank.bankId = twoSlots.bankId → x.state = .active →
        x.slots ∈ w.sm.table := by
  intro h
  have := h (after (answered ⟨1, 5⟩ ⟨5, 0⟩)) ⟨0, true, 2⟩ 0 ⟨⟨1, 5⟩, ⟨5, 0⟩, .active⟩
    (reach_after (by decide) (by decide)) ⟨by decide, by decide, by decide, by decide, by decide⟩
    (by decide) (by decide) (by decide)
  revert this
  decide

/-! ### Deleted mappings are absent -/

/-- The bank of the bankd is tidy. -/
def TidyBank (w : World) : Prop :=
  ∀ l, w.srvc = .up l → l.conn ∈ w.srv.banks → w.srv.ledger.Tidy l.conn

theorem TidyBank.step (h : w.TidyBank) (hso : w.Sound bank)
    (hst : (lts bank).step w lab w') (ho : ∀ op ∈ w.opOf lab, w.Orderly bank op) :
    w'.TidyBank := by
  rcases step_cases hst with ⟨op, hop, hs⟩ | ⟨addr, _, _, rfl⟩ | ⟨l, tx, _, hl, htx, rfl⟩ |
    ⟨l, _, hl, rfl⟩
  · intro l hl hb'
    rw [hs.srvc] at hl
    have hp := Server.step_performs hso.good hs.step
    exact hp.tidy hso.good hso.listing (h l hl) (fun hb => (ho op hop).orderly hso hl hb) hb'
  · intro l hl hb
    rw [← Srvc.up.inj hl] at hb
    obtain ⟨k, hk⟩ := hso.good.bank_conn (s := w.srv) hb
    exact absurd (hso.good.roster.fresh _ k hk) (Nat.lt_irrefl _)
  · intro l' hl' hb
    obtain ⟨hc, _⟩ := Link.dispatch_up hl'
    rw [hc] at hb ⊢
    exact h l hl hb
  · intro l' hl'
    cases hl'

/-- What a tidy bankd has that has read everything is on the global list of the server. -/
theorem Idle.table_subset (h : w.Idle bank l) (hso : w.Sound bank) (ha : w.Agreed bank)
    (ht : w.TidyBank) (hfd : w.srv.eventfd = false) :
    ∀ e ∈ w.sm.table, e ∈ w.srv.table ∧ bank.serves e.1 = true := by
  intro e he
  obtain ⟨hb, _⟩ := h.mem_banks hso
  have hlive := hso.good.live_of_open hb h.alive
  rw [← h.finalTable, (ha l h.link hb).table] at he
  obtain ⟨hs, m, hm | hm, hslots⟩ := he
  · obtain ⟨x, hx, rfl⟩ := Option.map_eq_some_iff.mp hslots
    exact ⟨Slotmaps.mem_table.mpr ⟨m, (ht l h.link hb).kept m hm, x, hx, rfl⟩, hs⟩
  · have hnil : w.srv.book.maps l.conn .mapsDelreq = [] :=
      ((ht l h.link hb).flushed hlive hfd).2
    rw [hnil] at hm
    cases hm

/-- **Deleted mappings are not at the bankd.**  In every run in which the control connection stays
up, no mapping of the bank is deleted while it is unacknowledged and the eventfd callback does not
find both new mappings and deletions, when nothing is on its way and no notification is pending the
server has every mapping that the bankd has. -/
theorem deleted_absent
    (h : (lts bank).Reach (fun w lab => w.Steady bank lab ∧ ∀ op ∈ w.opOf lab, w.Orderly bank op) w)
    (hi : w.Idle bank l) (hfd : w.srv.eventfd = false) : ∀ e ∈ w.sm.table, e ∈ w.srv.table := by
  have hinv : w.Fresh ∧ w.Agreed bank ∧ w.TidyBank := by
    refine h.invariant_of (I := fun w => w.Fresh ∧ w.Agreed bank ∧ w.TidyBank) (J := Sound bank)
      (fun _ => reach_sound) ?_ ?_
    · rintro w (rfl : w = initial)
      exact ⟨fresh_initial, fun _ => nofun, fun _ => nofun⟩
    · rintro w lab w' hso _ ⟨hf, ha, ht⟩ ⟨hsteady, ho⟩ hstep
      refine ⟨hf.step hso hstep hsteady, ha.step hso hstep fun op hop hs => ?_,
        ht.step hso hstep ho⟩
      exact ha.srvStep hso hs (fun l hl hb => (ht l hl hb).postClear _)
        fun l hl hev => hf.superseded hso hs hl hev
  obtain ⟨_, hagree, htidy⟩ := hinv
  exact fun e he => (hi.table_subset (reach_sound h) hagree htidy hfd e he).1

/-- Two mappings are created and one is deleted. -/
def deletedRun : List Label :=
  answered ⟨1, 0⟩ ⟨5, 0⟩ ++ [.srv (.post ⟨1, 1⟩ ⟨6, 0⟩), .srv .eventFd, .read, .deliver 0,
    .srv (.del 65536), .srv .eventFd, .read, .deliver 0]

theorem deletedRun_absent :
    ((⟨1, 1⟩, ⟨6, 0⟩) : BankSlot × ClientSlot) ∈ (after deletedRun).sm.table ∧
      ((⟨1, 1⟩, ⟨6, 0⟩) : BankSlot × ClientSlot) ∈ (after deletedRun).srv.table := by
  have hm : ((⟨1, 1⟩, ⟨6, 0⟩) : BankSlot × ClientSlot) ∈ (after deletedRun).sm.table := by decide
  refine ⟨hm, deleted_absent (l := ⟨0, true, 4⟩) (reach_after (by decide) (by decide)) ?_
    (by decide) _ hm⟩
  exact ⟨by decide, by decide, by decide, by decide, by decide⟩

/-- The mapping is deleted before the response to its create request arrives. -/
def earlyRun : List Label :=
  posted ⟨1, 0⟩ ⟨5, 0⟩ ++ [.srv (.del 65536), .srv .eventFd, .read, .deliver 0]

/-- **A deletion that meets an unacknowledged mapping is forgotten.**  The bankd keeps a mapping
that the server has no record of. -/
theorem early_deletion_lost :
    ¬∀ w l, (lts twoSlots).Reach (Steady twoSlots) w → w.Idle twoSlots l →
      w.srv.eventfd = false → ∀ e ∈ w.sm.table, e ∈ w.srv.table := by
  intro h
  have := h (after earlyRun) ⟨0, true, 2⟩ (reach_after (by decide) (by decide))
    ⟨by decide, by decide, by decide, by decide, by decide⟩ (by decide)
  revert this
  decide

/-! ### After a new connection -/

/-- **The tables are equal after any number of connections.**  In every run in which no mapping of
the bank is deleted while it is unacknowledged, the eventfd callback does not find both new mappings
and deletions, and the mappings of the server supersede what the bankd holds whenever it connects,
when nothing is on its way and no notification is pending the bankd has the mappings of the server
that it accepts, and no others. -/
theorem reconnected_equal
    (h : (lts bank).Reach (fun w lab => ∀ op ∈ w.opOf lab, w.Orderly bank op ∧
      w.Resumes bank op) w)
    (hi : w.Idle bank l) (hfd : w.srv.eventfd = false) (e : BankSlot × ClientSlot) :
    e ∈ w.sm.table ↔ e ∈ w.srv.table ∧ bank.serves e.1 = true := by
  have hinv : w.Agreed bank ∧ w.TidyBank := by
    refine h.invariant_of (I := fun w => w.Agreed bank ∧ w.TidyBank) (J := Sound bank)
      (fun _ => reach_sound) ?_ ?_
    · rintro w (rfl : w = initial)
      exact ⟨fun _ => nofun, fun _ => nofun⟩
    · rintro w lab w' hso _ ⟨ha, ht⟩ hc hstep
      refine ⟨ha.step hso hstep fun op hop hs => ?_,
        ht.step hso hstep fun op hop => (hc op hop).1⟩
      exact ha.srvStep hso hs (fun l hl hb => (ht l hl hb).postClear _)
        fun l hl hev => (hc op hop).2.superseded hso hl hs hev
  obtain ⟨hagree, htidy⟩ := hinv
  have hso := reach_sound h
  refine ⟨hi.table_subset hso hagree htidy hfd e, ?_⟩
  rintro ⟨he, hs⟩
  obtain ⟨hb, hbank⟩ := hi.mem_banks hso
  have hag := hagree l hi.link hb
  obtain ⟨m, hm, x, hx, rfl⟩ := Slotmaps.mem_table.mp he
  have hid : x.bank.bankId = bank.bankId := by
    simp only [BankCfg.serves, Bool.and_eq_true, decide_eq_true_eq] at hs
    exact hs.1
  have hslots : w.srv.book.slotsOf m = some x.slots := by
    show Option.map _ (w.srv.heap m) = _
    rw [hx]
    rfl
  have hmade : w.srv.book.Asked l.conn m := by
    cases hst : x.state with
    | new =>
        have hq := hso.good.book.queued m x l.conn hm hx hst (by rw [hid]; exact hbank)
        have hnil : w.srv.book.maps l.conn .mapsNew = [] :=
          ((htidy l hi.link hb).flushed (hso.good.live_of_open hb hi.alive) hfd).1
        rw [hnil] at hq
        cases hq
    | unacknowledged => exact .inl (hi.listed hso hx hid hst (by decide))
    | active => exact .inr (hi.listed hso hx hid hst (by decide))
    | deleteReq =>
        exact absurd hm
          (hso.listing.gone l.conn m (.inl (hi.listed (k := .mapsDelreq) hso hx hid hst (by decide))))
    | deleting =>
        exact absurd hm
          (hso.listing.gone l.conn m (.inr (hi.listed (k := .mapsDeleting) hso hx hid hst (by decide))))
  rw [← hi.finalTable, hag.table]
  exact ⟨hs, m, .inl hmade, hslots⟩

/-- The connection is lost, and the server learns of it. -/
def lostRun : List Label := answered ⟨1, 0⟩ ⟨5, 0⟩ ++ [.hangup, .srv (.closed 0)]

/-- A mapping is added in between, and the bankd connects again. -/
def resumedRun : List Label :=
  lostRun ++ [.srv (.post ⟨1, 1⟩ ⟨6, 0⟩), .dial (some 1), .deliver 1, .read, .read, .read,
    .deliver 1, .deliver 1]

theorem resumedRun_equal :
    ((⟨1, 1⟩, ⟨6, 0⟩) : BankSlot × ClientSlot) ∈ (after resumedRun).sm.table ↔
    ((⟨1, 1⟩, ⟨6, 0⟩) : BankSlot × ClientSlot) ∈ (after resumedRun).srv.table ∧
      twoSlots.serves ⟨1, 1⟩ = true :=
  reconnected_equal (l := ⟨1, true, 3⟩) (reach_after (by decide) (by decide))
    ⟨by decide, by decide, by decide, by decide, by decide⟩ (by decide) _

/-- The mapping is deleted in between instead. -/
def staleRun : List Label :=
  lostRun ++ [.srv (.del 65536), .srv .eventFd, .dial (some 1), .deliver 1, .read]

/-- **A deletion without a connection is forgotten.**  The bankd keeps the mapping it had before
the connection was lost. -/
theorem stale_after_reconnect :
    ¬∀ w l, (lts twoSlots).Reach Transition.Lts.Any w → w.Idle twoSlots l → w.srv.eventfd = false →
      ∀ e, e ∈ w.sm.table ↔ e ∈ w.srv.table ∧ twoSlots.serves e.1 = true := by
  intro h
  have := h (after staleRun) ⟨1, true, 1⟩
    (reach_after (C := fun _ _ => True) (by decide) (by decide))
    ⟨by decide, by decide, by decide, by decide, by decide⟩ (by decide) (⟨1, 0⟩, ⟨5, 0⟩)
  revert this
  decide

end World
end Remsim
