import Remsim.Refinement
import Remsim.Agreement

/-! # The server and a bankd (`rspro_client_fsm.c`)

The server and one bankd, joined by control connections that the bankd opens one after the other.
A connection carries PDUs both ways in order.  Towards the bankd these are the PDUs the server has
handed to its transmit queue (`Server.sent`), of which the bankd has read a number; towards the
server they are the lists `up`, one for each connection of the bankd.

The bankd runs the FSM of `rspro_client_fsm.c`: once a connection is up it sends its
`ConnectBankReq`, it is connected when the answer is `ok`, and only then does it transmit responses.
It may lose a connection at any time, and what it has not read is lost with it; the server may
still receive what was on its way, and learns of the loss when it does.  The table of mappings
survives.

All other steps of the server, its REST interface and eventfd callback and the peers of its other
connections, are those of `Server.lts`. -/

namespace Remsim

/-- The bankd's end of a control connection. -/
structure Link where
  conn : ConnId
  /-- `SRVC_ST_CONNECTED`; before, it is `SRVC_ST_ESTABLISHED`. -/
  connected : Bool
  /-- The number of PDUs read. -/
  read : ℕ
deriving DecidableEq, Repr

/-- `enum server_conn_fsm_state`; `reestablish` stands for the two states without a connection
that lead to a new one. -/
inductive Srvc where
  | init
  | reestablish
  | up (l : Link)
deriving DecidableEq, Repr

/-- The connection, if there is one. -/
def Srvc.link : Srvc → Option Link
  | .up l => some l
  | _ => none

theorem Srvc.mem_link {s : Srvc} {l : Link} : l ∈ s.link ↔ s = .up l := by
  cases s <;> simp [Srvc.link]

/-- The reaction of the FSM to an event of `bankd_srvc_handle_rx()`. -/
def Link.dispatch (l : Link) : Option SrvcEvent → Srvc
  | none => .up l
  | some .disconnect => .init
  | some (.clientConnRes r) =>
      if l.connected then .up l
      else if r = .ok then .up { l with connected := true }
      else .reestablish

/-- The server, the bankd's table and FSM, and the PDUs on their way to the server. -/
structure World where
  srv : Server
  sm : Slotmaps
  srvc : Srvc
  up : ConnId → Option (List RsproPDU)

namespace World

/-- The state after start-up: `main()` of the bankd has dispatched `SRVC_E_ESTABLISH`. -/
def initial : World where
  srv := Server.initial
  sm := Slotmaps.empty
  srvc := .reestablish
  up := fun _ => none

/-- The steps. -/
inductive Label where
  /-- A step of the server that the bankd has no part in. -/
  | srv (op : Server.Op)
  /-- A connection of the bankd is established. -/
  | dial (addr : Option UInt32)
  /-- The server receives a PDU of the bankd. -/
  | deliver (c : ConnId)
  /-- The bankd reads a PDU. -/
  | read
  /-- The bankd loses its connection: `SRVC_E_TCP_DOWN`, `SRVC_E_KA_TIMEOUT` or T1. -/
  | hangup
deriving DecidableEq, Repr

variable (bank : BankCfg) (w : World)

/-- The server step does not involve the bankd: it does not receive on the bankd's connections, and
`CLNTC_E_PUSH` is dispatched by the functions of the server only. -/
def outside : Server.Op → Bool
  | .rx c _ => (w.up c).isNone
  | .push _ => false
  | _ => true

/-- The `ConnectBankReq` of this bankd. -/
def hello : RsproPDU := .connectBankReq .remsimBankd bank.bankId.toNat bank.numSlots.toNat

/-- A new connection and its first PDU. -/
def connect (addr : Option UInt32) : World :=
  { w with
    srv := w.srv.acceptCb addr
    srvc := .up ⟨w.srv.nextConn, false, 0⟩
    up := Function.update w.up w.srv.nextConn (some [hello bank]) }

/-- `server_conn_send_rspro()`: the FSM transmits in `SRVC_ST_CONNECTED` only. -/
def send (l : Link) (resp : Option RsproPDU) : ConnId → Option (List RsproPDU) :=
  if l.connected then Function.update w.up l.conn ((w.up l.conn).map (· ++ resp.toList)) else w.up

/-- The bankd handles a PDU. -/
def handle (l : Link) (pdu : RsproPDU) : World :=
  let h := bank.bankdSrvcHandleRx w.sm pdu
  { w with
    sm := h.slotmaps
    srvc := Link.dispatch { l with read := l.read + 1 } h.event
    up := w.send l h.resp }

/-- The successor state, if the step can happen. -/
def next : Label → Option World
  | .srv op => if w.outside op then (w.srv.stepOp op).map fun s => { w with srv := s } else none
  | .dial addr =>
      match w.srvc with
      | .reestablish => some (w.connect bank addr)
      | _ => none
  | .deliver c =>
      match w.up c with
      | some (pdu :: ps) => (w.srv.stepOp (.rx c pdu)).map fun s =>
          { w with srv := s, up := Function.update w.up c (some ps) }
      | _ => none
  | .read =>
      match w.srvc with
      | .up l => ((w.srv.sent l.conn)[l.read]?).map fun tx => w.handle bank l tx.pdu
      | _ => none
  | .hangup =>
      match w.srvc with
      | .up _ => some { w with srvc := .reestablish }
      | _ => none

/-- The transition system of the server and the bankd. -/
def lts : Transition.Lts World Label := Transition.ofFun (· = initial) (next bank)

/-- The PDUs that the bankd has not read yet. -/
def unread (l : Link) : List Tx := (w.srv.sent l.conn).drop l.read

/-- The table of the bankd once it will have read them. -/
def finalTable (l : Link) : Table :=
  ((w.unread l).map Tx.pdu).foldl bank.tableStep w.sm.table

/-- The bankd is connected, the server knows it as its bank, and no PDU is on its way. -/
structure Idle (l : Link) : Prop where
  link : w.srvc = .up l
  bank : w.srv.bankdConnById bank.bankId = some l.conn
  alive : w.srv.isOpen l.conn = true
  up : w.up l.conn = some []
  down : w.unread l = []

variable {bank} {w} {w' : World} {l : Link} {c : ConnId}

/-! ### What a step does -/

/-- The server makes the step `op`, and the bankd does nothing. -/
structure SrvStep (w : World) (op : Server.Op) (w' : World) : Prop where
  step : Server.lts.step w.srv op w'.srv
  sm : w'.sm = w.sm
  srvc : w'.srvc = w.srvc
  /-- Of the PDUs of the bankd some may have been received, -/
  up : ∀ c, (w'.up c).isSome = (w.up c).isSome ∧
    ∀ q', w'.up c = some q' → ∃ q, w.up c = some q ∧ ∀ p ∈ q', p ∈ q
  /-- and nothing else is received on its connections. -/
  own : ∀ c pdu, op = .rx c pdu → (w.up c).isSome = true → ∃ q, w.up c = some q ∧ pdu ∈ q
  push : ∀ k, op ≠ .push k

/-- The step of the server that a label stands for. -/
def opOf (w : World) : Label → Option Server.Op
  | .srv op => some op
  | .deliver c => (w.up c).bind fun q => q.head?.map (.rx c)
  | _ => none

theorem step_cases {lab : Label} (h : (lts bank).step w lab w') :
    (∃ op, op ∈ w.opOf lab ∧ SrvStep w op w') ∨
      (∃ addr, lab = .dial addr ∧ w.srvc = .reestablish ∧ w' = w.connect bank addr) ∨
      (∃ l tx, lab = .read ∧ w.srvc = .up l ∧ (w.srv.sent l.conn)[l.read]? = some tx ∧
        w' = w.handle bank l tx.pdu) ∨
      ∃ l, lab = .hangup ∧ w.srvc = .up l ∧ w' = { w with srvc := .reestablish } := by
  change w.next bank lab = some w' at h
  cases lab with
  | srv op =>
      simp only [next] at h
      split_ifs at h with ho
      obtain ⟨s, hs, rfl⟩ := Option.map_eq_some_iff.mp h
      refine .inl ⟨op, rfl, hs, rfl, rfl, fun c => ⟨rfl, fun q hq => ⟨q, hq, fun _ => id⟩⟩, ?_, ?_⟩
      · rintro c pdu rfl hc
        simp only [outside, Option.isNone_iff_eq_none] at ho
        rw [ho] at hc
        cases hc
      · rintro k rfl
        cases ho
  | deliver c =>
      simp only [next] at h
      split at h
      · rename_i pdu ps hu
        obtain ⟨s, hs, rfl⟩ := Option.map_eq_some_iff.mp h
        refine .inl ⟨.rx c pdu, by rw [opOf, hu]; rfl, hs, rfl, rfl, fun k => ?_, ?_, fun k => nofun⟩
        · by_cases hk : k = c
          · subst hk
            have hself : Function.update w.up k (some ps) k = some ps := Function.update_self _ _ _
            refine ⟨by simp only [hself, hu, Option.isSome_some], fun q' hq' =>
              ⟨_, hu, fun p hp => ?_⟩⟩
            rw [← Option.some.inj (hself.symm.trans hq')] at hp
            exact List.mem_cons_of_mem _ hp
          · have hother : Function.update w.up c (some ps) k = w.up k := Function.update_of_ne hk _ _
            exact ⟨by simp only [hother], fun q hq => ⟨q, hother.symm.trans hq, fun _ => id⟩⟩
        · intro k p hp _
          obtain ⟨rfl, rfl⟩ := Server.Op.rx.inj hp
          exact ⟨_, hu, List.mem_cons_self⟩
      · cases h
  | dial addr =>
      simp only [next] at h
      split at h
      · rename_i hr
        exact .inr (.inl ⟨addr, rfl, hr, (Option.some.inj h).symm⟩)
      · cases h
  | read =>
      simp only [next] at h
      split at h
      · rename_i l hl
        obtain ⟨tx, htx, rfl⟩ := Option.map_eq_some_iff.mp h
        exact .inr (.inr (.inl ⟨l, tx, rfl, hl, htx, rfl⟩))
      · cases h
  | hangup =>
      simp only [next] at h
      split at h
      · rename_i l hl
        exact .inr (.inr (.inr ⟨l, rfl, hl, (Option.some.inj h).symm⟩))
      · cases h

/-- The FSM keeps its connection or gives it up. -/
theorem Link.dispatch_up {l l' : Link} {ev : Option SrvcEvent} (h : l.dispatch ev = .up l') :
    l'.conn = l.conn ∧ l'.read = l.read := by
  unfold Link.dispatch at h
  split at h
  · rw [← Srvc.up.inj h]
    exact ⟨rfl, rfl⟩
  · cases h
  · split_ifs at h
    · rw [← Srvc.up.inj h]
      exact ⟨rfl, rfl⟩
    · rw [← Srvc.up.inj h]
      exact ⟨rfl, rfl⟩

theorem mem_send {l : Link} {pdu : RsproPDU} {q : List RsproPDU} {i n : ℤ} {t : ComponentType}
    (hq : w.send l (bank.bankdSrvcHandleRx w.sm pdu).resp c = some q)
    (hp : .connectBankReq t i n ∈ q) : ∃ q₀, w.up c = some q₀ ∧ .connectBankReq t i n ∈ q₀ := by
  have hresp : ∀ p ∈ (bank.bankdSrvcHandleRx w.sm pdu).resp.toList, p ≠ .connectBankReq t i n := by
    intro p hp
    rw [Option.mem_toList] at hp
    cases pdu with
    | createMappingReq client b =>
        simp only [BankCfg.bankdSrvcHandleRx] at hp
        split at hp
        · unfold BankCfg.createMapping BankCfg.addMapping at hp
          repeat' split at hp
          all_goals (obtain rfl := Option.some.inj hp; intro he; cases he)
        · obtain rfl := Option.some.inj hp
          intro he
          cases he
    | removeMappingReq client b =>
        simp only [BankCfg.bankdSrvcHandleRx] at hp
        split at hp
        · unfold BankCfg.removeMapping at hp
          repeat' split at hp
          all_goals (obtain rfl := Option.some.inj hp; intro he; cases he)
        · obtain rfl := Option.some.inj hp
          intro he
          cases he
    | resetStateReq =>
        obtain rfl := Option.some.inj hp
        intro he
        cases he
    | _ => cases hp
  unfold send at hq
  split_ifs at hq
  · by_cases e : c = l.conn
    · rw [e, Function.update_self, Option.map_eq_some_iff] at hq
      obtain ⟨q₀, hq₀, rfl⟩ := hq
      rw [e]
      refine ⟨q₀, hq₀, (List.mem_append.mp hp).resolve_right fun hp => hresp _ hp rfl⟩
    · rw [Function.update_of_ne e] at hq
      exact ⟨q, hq, hp⟩
  · exact ⟨q, hq, hp⟩

theorem send_isSome (w : World) (l : Link) (resp : Option RsproPDU) (c : ConnId) :
    (w.send l resp c).isSome = (w.up c).isSome := by
  unfold send
  split_ifs
  · by_cases e : c = l.conn
    · rw [e, Function.update_self, Option.isSome_map]
    · rw [Function.update_of_ne e]
  · rfl

/-! ### Order on the control connections -/

/-- The server's lists and the table are in order; a connection gets requests only when it is a
bank; and the connections of the bankd carry its identity. -/
structure Sound (bank : BankCfg) (w : World) : Prop where
  good : w.srv.Good
  listing : w.srv.book.Listing
  wf : w.sm.Wf
  unasked : ∀ c, c ∉ w.srv.banks → (w.srv.conns c).isSome = true ∨ w.srv.nextConn ≤ c →
    (w.srv.sent c).filter Tx.isRequest = []
  old : ∀ c, (w.up c).isSome = true → c < w.srv.nextConn
  ids : ∀ c i, (w.up c).isSome = true → w.srv.book.bankOf c = some i → i = bank.bankId
  hello : ∀ c q t i n, w.up c = some q → .connectBankReq t i n ∈ q → UInt16.ofInt i = bank.bankId
  link : ∀ l, w.srvc = .up l → (w.up l.conn).isSome = true
  bound : ∀ l, w.srvc = .up l → l.read ≤ (w.srv.sent l.conn).length

theorem unasked_performs {s s' : Server} {op : Server.Op} (hg : s.Good)
    (hst : Server.lts.step s op s')
    (h : ∀ c, c ∉ s.banks → (s.conns c).isSome = true ∨ s.nextConn ≤ c →
      (s.sent c).filter Tx.isRequest = []) :
    ∀ c, c ∉ s'.banks → (s'.conns c).isSome = true ∨ s'.nextConn ≤ c →
      (s'.sent c).filter Tx.isRequest = [] := by
  intro c hc hid
  obtain ⟨hc₀, hid₀, hreq⟩ := Server.unasked_step hg hst hc hid
  obtain ⟨extra, he, hr⟩ := (Server.step_performs hg hst).sent c
  rw [he, List.filter_append, h c hc₀ hid₀, hr, hreq]
  rfl

/-- A connection of the bankd becomes a bank by its own `ConnectBankReq`. -/
theorem Sound.connect_id (h : w.Sound bank) {op : Server.Op} (hs : SrvStep w op w') {id : UInt16}
    (hc : (w.up c).isSome = true) (hev : w.srv.event op = .connect c id) : id = bank.bankId := by
  obtain ⟨i, n, rfl, rfl⟩ := Server.event_eq_connect hev
  obtain ⟨q, hq, hp⟩ := hs.own c _ rfl hc
  exact h.hello c q _ i n hq hp

theorem Sound.srvStep (h : w.Sound bank) {op : Server.Op} (hs : SrvStep w op w') :
    w'.Sound bank := by
  have hp := Server.step_performs h.good hs.step
  refine ⟨hp.good h.good, hp.listing h.good h.listing, by rw [hs.sm]; exact h.wf,
    unasked_performs h.good hs.step h.unasked, fun c hc => ?_, fun c i hc hi => ?_,
    fun c q' t i n hq' hm => ?_, fun l hl => ?_,
    fun l hl => ?_⟩
  · rw [(hs.up c).1] at hc
    exact Nat.lt_of_lt_of_le (h.old c hc) hp.ids.nextConn
  · rw [(hs.up c).1] at hc
    rw [hp.bankOf] at hi
    cases hev : w.srv.event op with
    | connect k id =>
        rw [hev, Event.banks] at hi
        by_cases e : c = k
        · subst e
          rw [Function.update_self] at hi
          exact (Option.some.inj hi).symm.trans (h.connect_id hs hc hev)
        · rw [Function.update_of_ne e] at hi
          exact h.ids c i hc hi
    | drop k =>
        rw [hev, Event.banks] at hi
        by_cases e : c = k
        · subst e
          rw [Function.update_self] at hi
          cases hi
        · rw [Function.update_of_ne e] at hi
          exact h.ids c i hc hi
    | _ =>
        rw [hev] at hi
        exact h.ids c i hc hi
  · obtain ⟨q, hq, hsub⟩ := (hs.up c).2 q' hq'
    exact h.hello c q t i n hq (hsub _ hm)
  · rw [(hs.up l.conn).1]
    exact h.link l (hs.srvc ▸ hl)
  · obtain ⟨extra, he, _⟩ := hp.sent l.conn
    rw [he, List.length_append]
    exact Nat.le_add_right_of_le (h.bound l (hs.srvc ▸ hl))

theorem connect_srv (bank : BankCfg) (w : World) (addr : Option UInt32) :
    Server.lts.step w.srv (.accept addr) (w.connect bank addr).srv :=
  Server.lts_step.mpr ⟨rfl, rfl⟩

theorem Sound.dial (h : w.Sound bank) (addr : Option UInt32) :
    (w.connect bank addr).Sound bank := by
  have hst := connect_srv bank w addr
  have hp := Server.step_performs h.good hst
  have hcases : ∀ c, ((w.connect bank addr).up c).isSome = true →
      c = w.srv.nextConn ∨ (w.up c).isSome = true := by
    intro c hc
    by_cases e : c = w.srv.nextConn
    · exact .inl e
    · change (Function.update w.up _ _ c).isSome = true at hc
      rw [Function.update_of_ne e] at hc
      exact .inr hc
  refine ⟨hp.good h.good, hp.listing h.good h.listing, h.wf, unasked_performs h.good hst h.unasked,
    fun c hc => ?_, fun c i hc hi => ?_, fun c q t i n hq hm => ?_, fun l hl => ?_, fun l hl => ?_⟩
  · rcases hcases c hc with rfl | hc
    · exact Nat.lt_succ_self _
    · exact Nat.lt_succ_of_lt (h.old c hc)
  · have hi' : w.srv.book.bankOf c = some i := by
      rw [hp.bankOf] at hi
      exact hi
    rcases hcases c hc with rfl | hc
    · obtain ⟨_, k, hk, _⟩ := Server.bankOf_eq_some.mp hi'
      exact absurd (h.good.roster.fresh _ k hk) (Nat.lt_irrefl _)
    · exact h.ids c i hc hi'
  · by_cases e : c = w.srv.nextConn
    · change Function.update w.up _ _ c = some q at hq
      rw [e, Function.update_self] at hq
      rw [← Option.some.inj hq, List.mem_singleton] at hm
      obtain ⟨_, rfl, _⟩ := RsproPDU.connectBankReq.inj hm
      exact ofInt_toNat bank.bankId
    · change Function.update w.up _ _ c = some q at hq
      rw [Function.update_of_ne e] at hq
      exact h.hello c q t i n hq hm
  · rw [← Srvc.up.inj hl]
    show (Function.update w.up _ _ _).isSome = true
    rw [Function.update_self]
    rfl
  · rw [← Srvc.up.inj hl]
    exact Nat.zero_le _

theorem Sound.read (h : w.Sound bank) (hl : w.srvc = .up l) {tx : Tx}
    (htx : (w.srv.sent l.conn)[l.read]? = some tx) : (w.handle bank l tx.pdu).Sound bank := by
  have hup : ∀ c, ((w.handle bank l tx.pdu).up c).isSome = (w.up c).isSome :=
    fun c => send_isSome w l _ c
  refine ⟨h.good, h.listing, (BankCfg.table_bankdSrvcHandleRx bank h.wf tx.pdu).1, h.unasked,
    fun c hc => ?_, fun c i hc => ?_, fun c q t i n hq hm => ?_, fun l' hl' => ?_, fun l' hl' => ?_⟩
  · rw [hup] at hc
    exact h.old c hc
  · rw [hup] at hc
    exact h.ids c i hc
  · obtain ⟨q₀, hq₀, hm₀⟩ := mem_send hq hm
    exact h.hello c q₀ t i n hq₀ hm₀
  · rw [hup, (Link.dispatch_up hl').1]
    exact h.link l hl
  · obtain ⟨hc, hr⟩ := Link.dispatch_up hl'
    rw [hc, hr]
    exact (List.getElem?_eq_some_iff.mp htx).1

theorem sound_initial : initial.Sound bank := by
  refine ⟨Server.good_initial, Server.listing_initial, Slotmaps.wf_empty, fun _ _ _ => rfl, ?_, ?_, ?_,
    ?_, ?_⟩
  · rintro c ⟨⟩
  · rintro c i ⟨⟩
  · rintro c q t i n ⟨⟩
  · rintro l ⟨⟩
  · rintro l ⟨⟩

theorem Sound.step (h : w.Sound bank) {lab : Label} (hst : (lts bank).step w lab w') :
    w'.Sound bank := by
  rcases step_cases hst with ⟨op, _, hs⟩ | ⟨addr, _, _, rfl⟩ | ⟨l, tx, _, hl, htx, rfl⟩ |
    ⟨l, _, hl, rfl⟩
  · exact h.srvStep hs
  · exact h.dial addr
  · exact h.read hl htx
  · exact ⟨h.good, h.listing, h.wf, h.unasked, h.old, h.ids, h.hello, fun _ => nofun, fun _ => nofun⟩

theorem reach_sound {C : World → Label → Prop} (h : (lts bank).Reach C w) : w.Sound bank :=
  h.invariant (fun w (hw : w = initial) => hw ▸ sound_initial) fun _ _ _ hs _ hst => hs.step hst

/-! ### Agreement -/

/-- The book of the server agrees with what the table of the bankd will be. -/
def Agreed (bank : BankCfg) (w : World) : Prop :=
  ∀ l, w.srvc = .up l → l.conn ∈ w.srv.banks →
    w.srv.book.Agrees bank l.conn (w.finalTable bank l)

theorem finalTable_srvStep (h : w.Sound bank) {op : Server.Op} (hs : SrvStep w op w')
    (hl : w.srvc = .up l) : w'.finalTable bank l =
      ((w.srv.ledger.requests (w.srv.event op) l.conn).map Tx.pdu).foldl bank.tableStep
        (w.finalTable bank l) := by
  obtain ⟨extra, he, hr⟩ := (Server.step_performs h.good hs.step).sent l.conn
  unfold finalTable unread
  rw [he, List.drop_append_of_le_length (h.bound l hl), List.map_append, List.foldl_append, hs.sm,
    BankCfg.foldl_tableStep_filter extra, hr]

theorem finalTable_read (h : w.Sound bank) {l' : Link} {tx : Tx}
    (htx : (w.srv.sent l.conn)[l.read]? = some tx) (hc : l'.conn = l.conn)
    (hr : l'.read = l.read + 1) :
    (w.handle bank l tx.pdu).finalTable bank l' = w.finalTable bank l := by
  obtain ⟨hlt, hget⟩ := List.getElem?_eq_some_iff.mp htx
  unfold finalTable unread
  rw [hc, hr, List.drop_eq_getElem_cons hlt, hget, List.map_cons, List.foldl_cons]
  show List.foldl _ (bank.bankdSrvcHandleRx w.sm tx.pdu).slotmaps.table _ = _
  rw [(BankCfg.table_bankdSrvcHandleRx bank h.wf tx.pdu).2]
  rfl

theorem finalTable_unasked (h : (w.srv.sent l.conn).filter Tx.isRequest = []) :
    w.finalTable bank l = w.sm.table := by
  have hnil : (w.unread l).filter Tx.isRequest = [] := by
    rw [List.filter_eq_nil_iff] at h ⊢
    exact fun tx htx => h tx (List.mem_of_mem_drop htx)
  rw [finalTable, BankCfg.foldl_tableStep_filter, hnil]
  rfl

/-- The step lemma for the server.  A new mapping of the bank must not meet an orphan, and when
the bank connects, the mappings of the server must supersede what the bankd holds. -/
theorem Agreed.srvStep (h : w.Agreed bank) (hso : w.Sound bank) {op : Server.Op}
    (hs : SrvStep w op w')
    (hpost : ∀ l, w.srvc = .up l → l.conn ∈ w.srv.banks →
      w.srv.ledger.PostClear l.conn (w.srv.event op))
    (hcon : ∀ l, w.srvc = .up l → w.srv.event op = .connect l.conn bank.bankId →
      w.srv.book.Superseded bank w.sm.table) : w'.Agreed bank := by
  intro l hl hb'
  rw [hs.srvc] at hl
  have hp := Server.step_performs hso.good hs.step
  have hbook : w'.srv.book = (w.srv.ledger.apply (w.srv.event op)).toBook :=
    congrArg Ledger.toBook hp.ledger
  rw [finalTable_srvStep hso hs hl, hbook]
  by_cases hb : l.conn ∈ w.srv.banks
  · exact Ledger.agrees_apply (h l hl hb) hso.good.book hso.listing hp.valid (hpost l hl hb)
      (fun k e => hs.push k (Server.event_eq_push e)) (hp.ne_connect hso.good hb)
      (hp.ne_drop hso.good hb')
  · obtain ⟨id, hev⟩ := hp.event_connect hso.good hb hb'
    obtain rfl := hso.connect_id hs (hso.link l hl) hev
    have hv := hp.valid
    rw [hev] at hv
    obtain ⟨k, hk⟩ := (hp.good hso.good).bank_conn hb'
    have hun := hso.unasked l.conn hb (hp.ids.conns l.conn (by
      show (w'.srv.conns l.conn).isSome = true
      rw [hk]
      rfl))
    rw [hev, finalTable_unasked hun]
    show ((w.srv.book.connect l.conn bank.bankId).Agrees bank l.conn
      (((if l.conn = l.conn then _ else []).map Tx.pdu).foldl bank.tableStep w.sm.table))
    rw [if_pos rfl]
    exact Book.agrees_connect hso.good.book hv.1 hv.2 (fun d hd d' hd' e =>
      hso.wf.table_bank hd hd' e) (hcon l hl hev)

/-- The other steps leave the agreement alone. -/
theorem Agreed.step (h : w.Agreed bank) (hso : w.Sound bank) {lab : Label}
    (hst : (lts bank).step w lab w')
    (hsrv : ∀ op ∈ w.opOf lab, SrvStep w op w' → w'.Agreed bank) : w'.Agreed bank := by
  rcases step_cases hst with ⟨op, ho, hs⟩ | ⟨addr, _, _, rfl⟩ | ⟨l, tx, _, hl, htx, rfl⟩ |
    ⟨l, _, hl, rfl⟩
  · exact hsrv op ho hs
  · intro l hl hb
    have hp := Server.step_performs hso.good (connect_srv bank w addr)
    have hb' : w.srv.nextConn ∈ w.srv.banks := by
      rw [← Srvc.up.inj hl] at hb
      exact hb
    obtain ⟨k, hk⟩ := hso.good.bank_conn hb'
    exact absurd (hso.good.roster.fresh _ k hk) (Nat.lt_irrefl _)
  · intro l' hl' hb
    obtain ⟨hc, hr⟩ := Link.dispatch_up hl'
    rw [finalTable_read hso htx hc hr, hc]
    exact h l hl (hc ▸ hb)
  · intro l' hl'
    cases hl'

end World

end Remsim
