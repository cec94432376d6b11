import Remsim.Refinement

/-! # What the clients are told

The view of a connection is what matters for the bankd configuration of clients: whether the
connection is waiting, a client or a bank, the remote address, the configuration stored for it and
the last `ConfigClientBankReq` sent on it.  Most steps of the server leave every view as it is or
end a connection (`Still`).  `_update_client_for_slotmap()` changes the view of the client that the
mapping names, and sends a `ConfigClientBankReq` exactly when the stored configuration changes
(`Informs`).  `view_step` says for every step which of these it is. -/

namespace Remsim

/-- The `ConfigClientBankReq` for a stored configuration. -/
def ClientBankd.request (t : ClientBankd) : RsproPDU :=
  .configClientBankReq (bankSlot2rspro t.slot) t.ip t.port

/-- The PDU is a `ConfigClientBankReq`. -/
def Tx.isConfig (t : Tx) : Bool :=
  match t.pdu with
  | .configClientBankReq _ _ _ => true
  | _ => false

/-- What a connection with a running FSM is. -/
inductive Standing where
  | waiting
  | client (slot : ClientSlot)
  | bank
deriving DecidableEq, Repr

/-- Read off the state of the FSM. -/
def Conn.standing (k : Conn) : Option Standing :=
  match k.fi with
  | some .established => some .waiting
  | some .connectedClient => some (.client k.clientSlot)
  | some .connectedBankd => some .bank
  | _ => none

/-- A connection as the bankd configuration sees it. -/
structure ConnView where
  standing : Standing
  addr : Option UInt32
  bankd : ClientBankd
  told : Option RsproPDU
deriving DecidableEq, Repr

namespace ConnView

/-- The configuration is stored, and sent if it is a new one. -/
def tell (v : ConnView) (t : ClientBankd) : ConnView :=
  if v.bankd = t then v else { v with bankd := t, told := some t.request }

/-- The client of a slot is told its bankd. -/
def inform (cs : ClientSlot) (t : ClientBankd) (v : ConnView) : ConnView :=
  if v.standing = .client cs then v.tell t else v

variable {v : ConnView} {cs : ClientSlot} {t : ClientBankd}

@[simp] theorem tell_standing : (v.tell t).standing = v.standing := by
  unfold tell
  split_ifs <;> rfl

@[simp] theorem tell_bankd : (v.tell t).bankd = t := by
  unfold tell
  split_ifs with h
  · exact h
  · rfl

theorem inform_of_ne (h : v.standing ≠ .client cs) : v.inform cs t = v := if_neg h

theorem inform_of_eq (h : v.standing = .client cs) : v.inform cs t = v.tell t := if_pos h

end ConnView

namespace Server

variable (s : Server)

/-- The last `ConfigClientBankReq` sent on a connection. -/
def told (c : ConnId) : Option RsproPDU := ((s.sent c).filter Tx.isConfig).getLast?.map Tx.pdu

/-- The remote address of a connection. -/
def addr (c : ConnId) : Option UInt32 := ((s.conns c).bind Conn.peer).bind Peer.addr

/-- The view of a connection. -/
def view (c : ConnId) : Option ConnView :=
  (s.conns c).bind fun k =>
    k.standing.map fun st => ⟨st, k.peer.bind Peer.addr, k.bankd, s.told c⟩

/-- The part of the state that views are made of. -/
def front : (ConnId → Option Conn) × List ConnId × (ConnId → Option RsproPDU) :=
  (s.conns, s.banks, s.told)

variable {s} {s' t : Server} {c k : ConnId}

/-! ### Views -/

theorem view_congr (hc : t.conns k = s.conns k) (ht : t.told k = s.told k) :
    t.view k = s.view k := by
  unfold view
  rw [hc, ht]

theorem view_eq {q : Conn} (hk : s.conns k = some q) :
    s.view k = q.standing.map fun st => ⟨st, q.peer.bind Peer.addr, q.bankd, s.told k⟩ := by
  unfold view
  rw [hk]
  rfl

theorem addr_eq {q : Conn} (hk : s.conns k = some q) : s.addr k = q.peer.bind Peer.addr := by
  unfold addr
  rw [hk]
  rfl

theorem conn_of_view {v : ConnView} (h : s.view k = some v) : ∃ q, s.conns k = some q ∧
    q.standing = some v.standing ∧ v.bankd = q.bankd ∧ v.told = s.told k ∧ v.addr = s.addr k := by
  obtain ⟨q, hq, h⟩ := Option.bind_eq_some_iff.mp h
  obtain ⟨st, hst, rfl⟩ := Option.map_eq_some_iff.mp h
  exact ⟨q, hq, hst, rfl, rfl, (addr_eq hq).symm⟩

theorem Conn.standing_client {q : Conn} {cs : ClientSlot} (h : q.standing = some (.client cs)) :
    q.fi = some .connectedClient ∧ q.clientSlot = cs := by
  unfold Conn.standing at h
  split at h <;> simp_all

theorem clientConnBySlot_of_view (hr : s.roster.Inv) {v : ConnView} {cs : ClientSlot}
    (h : s.view k = some v) (hv : v.standing = .client cs) : s.clientConnBySlot cs = some k := by
  obtain ⟨q, hq, hst, _⟩ := conn_of_view h
  rw [hv] at hst
  obtain ⟨hf, hcs⟩ := Conn.standing_client hst
  obtain ⟨ρ, hρ, hm⟩ := hr.state k q _ hq hf
  obtain rfl : Role.client = ρ := Option.some.inj hρ
  have hk : (s.conns k).any (fun k => k.clientSlot = cs) = true := by
    rw [hq]
    simpa using hcs
  cases hfind : s.clientConnBySlot cs with
  | none => exact absurd hk (List.find?_eq_none.mp hfind k hm)
  | some a =>
      have ha : a ∈ s.roster.members .client := List.mem_of_find?_eq_some hfind
      have hany := List.find?_some hfind
      obtain ⟨qa, hqa, hslot⟩ := (Option.any_eq_true _ _).mp hany
      have hslot : qa.clientSlot = cs := by simpa using hslot
      rw [hr.clientUnique a k qa q ha hm hqa hq (hslot.trans hcs.symm)]

/-! ### Steps that send no configuration -/

theorem told_send {pdu : RsproPDU} {about : Option MapId}
    (h : Tx.isConfig ⟨pdu, about⟩ = false) : (s.clientConnSend c pdu about).told = s.told := by
  funext a
  show Option.map _ ((Function.update s.sent c _ a).filter Tx.isConfig).getLast? = _
  by_cases e : a = c
  · subst e
    rw [Function.update_self, List.filter_append, List.filter_cons_of_neg (by simp [h]),
      List.filter_nil, List.append_nil]
    rfl
  · rw [Function.update_of_ne e]
    rfl

theorem front_send {pdu : RsproPDU} {about : Option MapId} (h : Tx.isConfig ⟨pdu, about⟩ = false) :
    (s.clientConnSend c pdu about).front = s.front := by
  show (s.conns, s.banks, (s.clientConnSend c pdu about).told) = _
  rw [told_send h]
  rfl

theorem front_pushOne {req : SlotMapping → RsproPDU} (h : ∀ x m, Tx.isConfig ⟨req x, m⟩ = false)
    (s : Server) (c : ConnId) (st : SlotMappingState) (dst : BankList) (m : MapId) :
    (s.pushOne c req st dst m).front = s.front := by
  unfold pushOne
  cases s.heap m with
  | none => rfl
  | some x =>
      show (s.clientConnSend c (req x) (some m)).front = _
      exact front_send (h x _)

theorem front_push (s : Server) (c : ConnId) : (s.push c).front = s.front := by
  unfold push
  refine Eq.trans (ListLib.foldl_fixed front _ (fun s m => ?_) _ _)
    (ListLib.foldl_fixed front _ (fun s m => ?_) _ _)
  · exact front_pushOne (fun _ _ => rfl) s c _ _ m
  · exact front_pushOne (fun _ _ => rfl) s c _ _ m

theorem front_dispatchPush (s : Server) (c : ConnId) : (s.dispatchPush c).front = s.front := by
  unfold dispatchPush
  split_ifs
  · exact front_push s c
  · rfl

theorem front_eventFdCb (s : Server) : s.eventFdCb.front = s.front := by
  unfold eventFdCb
  split_ifs
  · refine ListLib.foldl_fixed front _ (fun s c => ?_) _ _
    simp only
    split_ifs
    · exact front_dispatchPush s c
    · rfl
  · rfl

theorem front_of_roster (hr : t.roster = s.roster) (hs : t.sent = s.sent) :
    t.front = s.front := by
  have h₁ : t.conns = s.conns := congrArg Roster.conns hr
  have h₂ : t.banks = s.banks := congrArg (fun r : Roster => r.members .bank) hr
  unfold front told
  rw [h₁, h₂, hs]

theorem front_acceptBank (s : Server) (c : ConnId) : (s.acceptBank c).front =
    (Function.update s.conns c ((s.conns c).map fun k => { k with fi := some .connectedBankd }),
      s.banks.filter (· ≠ c) ++ [c], s.told) := by
  unfold acceptBank
  rw [front_dispatchPush, onenter_fixed front (fun _ _ _ _ => rfl)]
  show (_, _, Server.told (clientConnSend _ c _ none)) = _
  rw [told_send rfl]
  rfl

/-! ### Steps that change no view -/

/-- No view changes, but connections that are no banks may have ended. -/
structure Still (s s' : Server) : Prop where
  told : s'.told = s.told
  banks : ∀ c ∈ s'.banks, c ∈ s.banks
  view : ∀ c, s'.view c = s.view c ∨ s'.view c = none ∧ c ∉ s'.banks

theorem Still.of_front (h : s'.front = s.front) : Still s s' := by
  obtain ⟨hc, hb, ht⟩ : s'.conns = s.conns ∧ s'.banks = s.banks ∧ s'.told = s.told := by
    simpa [front] using h
  exact ⟨ht, fun c hm => hb ▸ hm, fun c => .inl (view_congr (by rw [hc]) (by rw [ht]))⟩

theorem Still.of_lost (ht : s'.told = s.told) (hb : ∀ c ∈ s'.banks, c ∈ s.banks)
    (hc : ∀ k, k ≠ c → s'.conns k = s.conns k) (hv : s'.view c = none) (hn : c ∉ s'.banks) :
    Still s s' := by
  refine ⟨ht, hb, fun k => ?_⟩
  by_cases e : k = c
  · exact .inr ⟨e ▸ hv, e ▸ hn⟩
  · exact .inl (view_congr (hc k e) (by rw [ht]))

theorem still_closed (hg : s.Good) (ho : s.isOpen c = true) : Still s (s.tcpDown c) := by
  obtain ⟨_, hr, _, hs⟩ := closed_spec hg ho
  have hconns : (s.tcpDown c).conns = Function.update s.conns c none := congrArg Roster.conns hr
  have hbanks : (s.tcpDown c).banks = s.banks.filter (· ≠ c) :=
    congrArg (fun r : Roster => r.members .bank) hr
  refine Still.of_lost (c := c) ?_ ?_ (fun k hk => ?_) ?_ ?_
  · funext k
    unfold told
    rw [hs]
  · intro k hk
    rw [hbanks] at hk
    exact List.mem_of_mem_filter hk
  · rw [hconns, Function.update_of_ne hk]
  · unfold view
    rw [hconns, Function.update_self]
    rfl
  · rw [hbanks]
    simp

theorem still_term (hg : s.Good) (ho : s.isOpen c = true) (hc : c ∉ s.banks) :
    Still s (s.term c) := by
  obtain ⟨k, hk, _, hp⟩ := hg.open_iff.mp ho
  rw [term, teardownDepth, fsmInstTerm_eq hk hp 0]
  refine Still.of_lost (c := c) rfl (fun _ h => h) (fun a ha => modConn_conns_of_ne ha _) ?_ hc
  unfold view
  rw [detach, modConn_conns_self, hk]
  rfl

theorem still_reject (hg : s.Good) (h : s.fi c = some .established) {f : Conn → Conn}
    {prev : ConnId} {res : RsproPDU} (hres : Tx.isConfig ⟨res, none⟩ = false)
    (hr : (s.modConn c f).reject c prev res = .ok s') : Still s s' := by
  obtain ⟨k, hk, _, _, _, _, hnb, _⟩ := hg.established h
  unfold reject at hr
  split at hr
  · cases hr
  · obtain rfl := Except.ok.inj hr
    refine Still.of_lost (c := c) ?_ (fun _ h => h) (fun a ha => ?_) ?_ hnb
    · exact told_send (s := s.modConn c f) hres
    · rw [setFi, modConn_conns_of_ne ha]
      exact modConn_conns_of_ne ha f
    · unfold view
      rw [setFi, modConn_conns_self]
      show ((((s.modConn c f).conns c).map _).bind _) = none
      rw [modConn_conns_self, hk]
      rfl

/-! ### Updates of a client -/

/-- The client of a slot is informed; no other view changes. -/
structure Informs (s s' : Server) (cs : ClientSlot) (q : ClientBankd) : Prop where
  told : ∀ c, s'.told c = s.told c ∨ (s.conns c).isSome = true
  view : ∀ c, s'.view c = (s.view c).map (ConnView.inform cs q)

theorem told_clntStConnectedClient {q : Conn} (hk : s.conns c = some q) :
    (s.clntStConnectedClient c).told = Function.update s.told c (some q.bankd.request) := by
  unfold clntStConnectedClient
  rw [hk]
  funext a
  show Option.map _ ((Function.update s.sent c _ a).filter Tx.isConfig).getLast? = _
  by_cases e : a = c
  · subst e
    rw [Function.update_self, Function.update_self, List.filter_append,
      List.filter_cons_of_pos (by rfl), List.filter_nil, List.getLast?_append_of_ne_nil _ (by simp)]
    rfl
  · rw [Function.update_of_ne e, Function.update_of_ne e]
    rfl

theorem accepts_clCfgBankd {q : Conn} (hk : s.conns c = some q) :
    s.accepts c .clCfgBankd = true ↔ q.fi = some .connectedClient := by
  rw [accepts_eq]
  constructor
  · rintro ⟨st, hst, hm⟩
    obtain ⟨q', hq', hf⟩ := fi_eq_some.mp hst
    obtain rfl := Option.some.inj (hk.symm.trans hq')
    cases st <;> first | exact hf | cases hm
  · exact fun hf => ⟨_, fi_eq_some.mpr ⟨q, hk, hf⟩, rfl⟩

theorem view_clientUpdate {q : Conn} {t : ClientBankd} (hq : s.conns c = some q)
    (hf : q.fi = none ∨ q.fi = some .connectedClient) {cs : ClientSlot} (hcs : q.clientSlot = cs)
    (hs : s' = if (s.conns c).map Conn.bankd ≠ some t ∧ s.accepts c .clCfgBankd then
      (s.setBankd c t).clntStConnectedClient c else s.setBankd c t) :
    s'.view c = (s.view c).map (ConnView.inform cs t) := by
  have hset : (s.setBankd c t).conns c = some { q with bankd := t } := by
    rw [setBankd, modConn_conns_self, hq]
    rfl
  have hold : (s.conns c).map Conn.bankd = some q.bankd := by rw [hq]; rfl
  rw [hold] at hs
  rcases hf with hf | hf
  · -- the FSM of the client was terminated: no event is accepted, and there is no view
    have hacc : s.accepts c .clCfgBankd ≠ true := fun h => by
      rw [accepts_clCfgBankd hq, hf] at h
      cases h
    rw [if_neg fun h => hacc h.2] at hs
    rw [hs, view_eq hset, view_eq hq]
    simp [Conn.standing, hf]
  · have hacc : s.accepts c .clCfgBankd = true := (accepts_clCfgBankd hq).mpr hf
    rw [view_eq hq]
    by_cases e : q.bankd = t
    · rw [if_neg fun h => h.1 (by rw [e])] at hs
      rw [hs, view_eq hset]
      subst e
      simp [Conn.standing, hf, ConnView.inform, ConnView.tell, hcs]
      rfl
    · rw [if_pos ⟨fun h => e (Option.some.inj h), hacc⟩] at hs
      have hconns : s'.conns c = some { q with bankd := t } := by
        rw [hs, clntStConnectedClient, hset]
        exact hset
      rw [view_eq hconns, hs, told_clntStConnectedClient hset, Function.update_self]
      simp [Conn.standing, hf, ConnView.inform, ConnView.tell, hcs, e]

/-- **`_update_client_for_slotmap()` informs the client of the mapping.** -/
theorem updateClientForSlotmap_informs (hr : s.roster.Inv) {x : SlotMapping} (bc : Option ConnId)
    {ip : UInt32} {port : UInt16}
    (ha : s.bankdAddr x (bc <|> s.bankdConnById x.bank.bankId) = .ok (some (ip, port)))
    (h : s.updateClientForSlotmap x bc = .ok s') : Informs s s' x.client ⟨x.bank, ip, port⟩ := by
  have hother : ∀ a, s.clientConnBySlot x.client ≠ some a →
      (s.view a).map (ConnView.inform x.client ⟨x.bank, ip, port⟩) = s.view a := by
    intro a hne
    cases hv : s.view a with
    | none => rfl
    | some v =>
        have hst : v.standing ≠ .client x.client :=
          fun e => hne (clientConnBySlot_of_view hr hv e)
        rw [Option.map_some, ConnView.inform_of_ne hst]
  cases hc : s.clientConnBySlot x.client with
  | none =>
      rw [updateClientForSlotmap_none hc] at h
      obtain rfl := Except.ok.inj h
      exact ⟨fun _ => .inl rfl, fun a => (hother a (by rw [hc]; nofun)).symm⟩
  | some c =>
      rw [updateClientForSlotmap_eq hc, ha] at h
      have hs : s' = if (s.conns c).map Conn.bankd ≠ some ⟨x.bank, ip, port⟩ ∧
          s.accepts c .clCfgBankd then (s.setBankd c ⟨x.bank, ip, port⟩).clntStConnectedClient c
          else s.setBankd c ⟨x.bank, ip, port⟩ := (Except.ok.inj h).symm
      have hm : c ∈ s.roster.members .client := List.mem_of_find?_eq_some hc
      obtain ⟨q, hq⟩ := Option.isSome_iff_exists.mp ((hr.listed c).mpr ⟨_, hm⟩)
      have hcs : q.clientSlot = x.client := by
        have := List.find?_some hc
        rw [show s.conns c = some q from hq] at this
        simpa using this
      have hfi : q.fi = none ∨ q.fi = some .connectedClient := by
        cases hf : q.fi with
        | none => exact .inl rfl
        | some st =>
            obtain ⟨ρ, hρ, hmρ⟩ := hr.state c q st hq hf
            obtain rfl := hr.oneRole c ρ .client hmρ hm
            cases st <;> first | exact .inr rfl | cases hρ
      have hfar : ∀ a, a ≠ c → s'.conns a = s.conns a ∧ s'.told a = s.told a := by
        intro a hne
        have hset : (s.setBankd c ⟨x.bank, ip, port⟩).conns a = s.conns a :=
          modConn_conns_of_ne hne _
        rw [hs]
        split_ifs
        · have hself : (s.setBankd c ⟨x.bank, ip, port⟩).conns c =
              some { q with bankd := ⟨x.bank, ip, port⟩ } := by
            rw [setBankd, modConn_conns_self, show s.conns c = some q from hq]
            rfl
          refine ⟨?_, ?_⟩
          · rw [clntStConnectedClient, hself]
            exact hset
          · rw [told_clntStConnectedClient hself, Function.update_of_ne hne]
            rfl
        · exact ⟨hset, rfl⟩
      refine ⟨fun a => ?_, fun a => ?_⟩
      · by_cases e : a = c
        · exact .inr (by rw [e, show s.conns c = some q from hq]; rfl)
        · exact .inl (hfar a e).2
      · by_cases e : a = c
        · rw [e]
          exact view_clientUpdate hq hfi hcs hs
        · rw [hother a (by rw [hc]; exact fun h => e (Option.some.inj h).symm)]
          exact view_congr (hfar a e).1 (hfar a e).2

/-! ### Connections that identify themselves -/

/-- A waiting connection becomes a client or a bank. -/
structure Settles (s s' : Server) (c : ConnId) (st : Standing) : Prop where
  told : s'.told = s.told
  other : ∀ k, k ≠ c → s'.view k = s.view k
  self : ∃ v, s.view c = some v ∧ v.standing = .waiting ∧ s'.view c = some { v with standing := st }

theorem Settles.of_conns {k q : Conn} {st : Standing} (hk : s.conns c = some k)
    (hf : k.fi = some .established) (ht : s'.told = s.told)
    (hc : s'.conns = Function.update s.conns c (some q)) (hst : q.standing = some st)
    (hp : q.peer = k.peer) (hb : q.bankd = k.bankd) : Settles s s' c st := by
  refine ⟨ht, fun a ha => view_congr (by rw [hc, Function.update_of_ne ha]) (by rw [ht]), ?_⟩
  refine ⟨⟨.waiting, k.peer.bind Peer.addr, k.bankd, s.told c⟩, ?_, rfl, ?_⟩
  · rw [view_eq hk]
    simp [Conn.standing, hf]
  · rw [view_eq (show s'.conns c = some q by rw [hc, Function.update_self]), hst, ht, hp, hb]
    rfl

theorem joined_settles (hg : s.Good) (h : s.fi c = some .established) (slot : ClientSlot) :
    Settles s (s.joined c slot) c (.client slot) := by
  obtain ⟨k, hk, hf, _⟩ := hg.established h
  exact Settles.of_conns hk hf (told_send (s := s) rfl) (joined_conns hk slot) rfl rfl rfl

theorem acceptBank_settles (hg : s.Good) (h : s.fi c = some .established) (id n : UInt16) :
    Settles s ((s.modConn c fun k => { k with bankId := id, numSlots := n }).acceptBank c) c
      .bank := by
  obtain ⟨k, hk, hf, _⟩ := hg.established h
  have hfront := front_acceptBank (s.modConn c fun k => { k with bankId := id, numSlots := n }) c
  refine Settles.of_conns hk hf (congrArg (fun f => f.2.2) hfront)
    (q := { k with bankId := id, numSlots := n, fi := some .connectedBankd }) ?_ rfl rfl rfl
  refine (congrArg Prod.fst hfront).trans ?_
  show Function.update (Function.update s.conns c _) c ((Function.update s.conns c _ c).map _) = _
  rw [Function.update_idem, Function.update_self, hk]
  rfl

/-! ### The address a client is told -/

theorem bankdAddr_deleting {x : SlotMapping} (h : x.state = .deleting) (b : Option ConnId) :
    s.bankdAddr x b = .ok (some (0, 0)) := if_pos h

theorem bankdAddr_none (x : SlotMapping) : s.bankdAddr x none = .ok (some (0, 0)) := by
  unfold bankdAddr
  split_ifs <;> rfl

theorem bankdAddr_some {x : SlotMapping} (h : x.state ≠ .deleting) {ip : UInt32}
    (ha : s.addr c = some ip) : s.bankdAddr x (some c) = .ok (some (ip, 9999)) := by
  obtain ⟨p, hp, hip⟩ := Option.bind_eq_some_iff.mp ha
  unfold bankdAddr
  rw [if_neg h]
  simp only [hp, hip, Option.map_some]

/-- A create response informs the client of the acknowledged mapping. -/
theorem createMapRes_informs (hg : s.Good) (hr : s.createMapRes c = .ok s') :
    ∃ m ms x, s.maps c .mapsUnack = m :: ms ∧ s.heap m = some x ∧
      ∀ ip, s.addr c = some ip → Informs s s' x.client ⟨x.bank, ip, 9999⟩ := by
  unfold createMapRes at hr
  cases hm : s.maps c .mapsUnack with
  | nil =>
      simp only [hm] at hr
      cases hr
  | cons m ms =>
      simp only [hm] at hr
      have hin : m ∈ s.book.maps c .mapsUnack := by
        show m ∈ s.maps c .mapsUnack
        rw [hm]
        exact List.mem_cons_self
      obtain ⟨x, hx⟩ := hg.book.heap_of_mem hin
      have hx' : (s.slotmapStateChange m .active (some (c, .mapsActive))).heap m =
          some { x with state := .active } := by
        show Function.update s.heap m ((s.heap m).map _) m = _
        rw [Function.update_self, show s.heap m = some x from hx]
        rfl
      rw [hx'] at hr
      refine ⟨m, ms, x, rfl, hx, fun ip hip => ?_⟩
      have hi := updateClientForSlotmap_informs
        (s := s.slotmapStateChange m .active (some (c, .mapsActive)))
        (x := { x with state := .active }) hg.roster (some c)
        (bankdAddr_some (c := c) (fun h => by cases h) hip) hr
      exact ⟨hi.told, hi.view⟩

/-- A remove response tells the client of the removed mapping that it has no bankd. -/
theorem removeMapRes_informs (hg : s.Good) (hr : s.removeMapRes c = .ok s') :
    ∃ m ms x, s.maps c .mapsDeleting = m :: ms ∧ s.heap m = some x ∧
      Informs s s' x.client ⟨x.bank, 0, 0⟩ := by
  unfold removeMapRes at hr
  cases hm : s.maps c .mapsDeleting with
  | nil =>
      simp only [hm] at hr
      cases hr
  | cons m ms =>
      simp only [hm] at hr
      cases hx : s.heap m with
      | none =>
          simp only [hx] at hr
          cases hr
      | some x =>
          simp only [hx] at hr
          split_ifs at hr with hst
          cases hu : s.updateClientForSlotmap x (some c) with
          | error e =>
              simp only [hu, bind, Except.bind] at hr
              cases hr
          | ok t =>
              simp only [hu, bind, Except.bind] at hr
              obtain rfl := Except.ok.inj hr
              have hi := updateClientForSlotmap_informs hg.roster _ (bankdAddr_deleting hst _) hu
              exact ⟨m, ms, x, rfl, hx, hi.told, hi.view⟩

/-- `clnt_st_connected_client_onenter()` informs the client about the mapping of its slot. -/
theorem onenter_informs (hr : s.roster.Inv) {q : Conn} (hq : s.conns c = some q)
    (h : s.clntStConnectedClientOnenter c = .ok s') :
    (s' = s ∧ s.slotmapByClient q.clientSlot = none) ∨
      ∃ m x, s.slotmapByClient q.clientSlot = some m ∧ s.heap m = some x ∧
        ∀ ip port, s.bankdAddr x (s.bankdConnById x.bank.bankId) = .ok (some (ip, port)) →
          Informs s s' x.client ⟨x.bank, ip, port⟩ := by
  unfold clntStConnectedClientOnenter at h
  simp only [hq] at h
  cases hm : s.slotmapByClient q.clientSlot with
  | none =>
      simp only [hm] at h
      exact .inl ⟨(Except.ok.inj h).symm, rfl⟩
  | some m =>
      simp only [hm] at h
      cases hx : s.heap m with
      | none =>
          simp only [hx] at h
          cases h
      | some x =>
          simp only [hx] at h
          exact .inr ⟨m, x, rfl, hx, fun ip port ha =>
            updateClientForSlotmap_informs hr none ha h⟩

/-! ### All steps -/

/-- What a step does to the views. -/
inductive Turn (s : Server) (op : Op) (s' : Server) : Prop
  | still (h : Still s s') (hev : ∀ c, s.event op ≠ .ack c ∧ s.event op ≠ .unmap c)
  | accept (addr : Option UInt32) (hop : op = .accept addr) (hs : s' = s.acceptCb addr)
  | bank (c : ConnId) (bankId n : ℤ) (hop : op = .rx c (.connectBankReq .remsimBankd bankId n))
      (ha : s.accepts c .bankConn = true) (hb : s'.banks = s.banks ++ [c])
      (h : Settles s s' c .bank)
  | client (c : ConnId) (cs : ClientSlot) (hev : s.event op = .quiet)
      (hp : Performs s .quiet (s.joined c cs)) (h : Settles s (s.joined c cs) c (.client cs))
      (hr : (s.joined c cs).clntStConnectedClientOnenter c = .ok s')
  | ack (c : ConnId) (hev : s.event op = .ack c) (hr : s.createMapRes c = .ok s')
  | unmap (c : ConnId) (r : ResultCode) (hop : op = .rx c (.removeMappingRes r))
      (hev : s.event op = .unmap c) (hr : s.removeMapRes c = .ok s')

theorem clientConn_turn (hg : s.Good) {identity : ComponentType} {clientSlot : Option ClientSlotT}
    (h : s.fi c = some .established)
    (hr : s.establishedClientConn c identity clientSlot = .ok s') :
    Turn s (.rx c (.connectClientReq identity clientSlot)) s' := by
  obtain ⟨k, hk, hfi, hp, hm, hncl, hnb, ho⟩ := hg.established h
  have hev : ∀ a, s.event (.rx c (.connectClientReq identity clientSlot)) ≠ .ack a ∧
      s.event (.rx c (.connectClientReq identity clientSlot)) ≠ .unmap a := fun _ => ⟨nofun, nofun⟩
  unfold establishedClientConn at hr
  split_ifs at hr with hid
  · obtain rfl := Except.ok.inj hr
    exact .still (still_term hg ho hnb) hev
  · cases hcs : clientSlot with
    | none =>
        simp only [hcs] at hr
        obtain rfl := Except.ok.inj hr
        exact .still (still_term hg ho hnb) (hcs ▸ hev)
    | some cs =>
        simp only [hcs] at hr
        cases hprev : (s.modConn c fun k =>
            { k with clientSlot := rspro2clientSlot cs }).clientConnBySlot
              (rspro2clientSlot cs) with
        | none =>
            simp only [hprev] at hr
            exact .client c _ rfl (joined_performs hg h hprev) (joined_settles hg h _) hr
        | some prev =>
            have hpm : prev ∈ s.clients := List.mem_of_find?_eq_some hprev
            have hne : prev ≠ c := fun e => hncl (e ▸ hpm)
            simp only [hprev, ne_eq, hne, not_false_eq_true, if_true] at hr
            exact .still (still_reject hg h (f := fun k => { k with clientSlot := _ }) rfl hr)
              (hcs ▸ hev)

theorem quiet_ne (a : ConnId) : Event.quiet ≠ .ack a ∧ Event.quiet ≠ .unmap a := ⟨nofun, nofun⟩

theorem connect_ne (c : ConnId) (id : UInt16) (a : ConnId) :
    Event.connect c id ≠ .ack a ∧ Event.connect c id ≠ .unmap a := ⟨nofun, nofun⟩

theorem bankConn_turn (hg : s.Good) {identity : ComponentType} {bankId n : ℤ}
    (h : s.fi c = some .established) (hr : s.establishedBankConn c identity bankId n = .ok s') :
    Turn s (.rx c (.connectBankReq identity bankId n)) s' := by
  obtain ⟨k, hk, hfi, hp, hm, hncl, hnb, ho⟩ := hg.established h
  have hev : ∀ a, s.event (.rx c (.connectBankReq identity bankId n)) ≠ .ack a ∧
      s.event (.rx c (.connectBankReq identity bankId n)) ≠ .unmap a := by
    intro a
    simp only [event, rxEvent]
    split_ifs
    · exact connect_ne c _ a
    · exact quiet_ne a
  unfold establishedBankConn at hr
  split_ifs at hr with hid
  · obtain rfl := Except.ok.inj hr
    exact .still (still_term hg ho hnb) hev
  · obtain rfl : identity = .remsimBankd := by simpa using hid
    have hbanks : ((s.modConn c fun k => { k with bankId := .ofInt bankId, numSlots := .ofInt n
        }).acceptBank c).banks = s.banks ++ [c] := by
      refine (congrArg (fun f => f.2.1) (front_acceptBank _ c)).trans ?_
      exact congrArg (· ++ [c]) (ListLib.filter_ne_of_not_mem hnb)
    simp only at hr
    split at hr
    · obtain rfl := Except.ok.inj hr
      exact .bank c bankId n rfl ((accepts_established (.inr rfl)).mpr h) hbanks
        (acceptBank_settles hg h _ _)
    · split_ifs at hr
      · exact .still (still_reject hg h
          (f := fun k => { k with bankId := .ofInt bankId, numSlots := .ofInt n }) rfl hr) hev
      · obtain rfl := Except.ok.inj hr
        exact .bank c bankId n rfl ((accepts_established (.inr rfl)).mpr h) hbanks
          (acceptBank_settles hg h _ _)

theorem rx_turn (hg : s.Good) {pdu : RsproPDU} (hr : s.handleRxRspro c pdu = .ok s') :
    Turn s (.rx c pdu) s' := by
  cases pdu with
  | connectClientReq identity clientSlot =>
      simp only [handleRxRspro] at hr
      split_ifs at hr with ha
      · exact clientConn_turn hg ((accepts_established (.inl rfl)).mp ha) hr
      · obtain rfl := Except.ok.inj hr
        exact .still (.of_front rfl) quiet_ne
  | connectBankReq identity bankId n =>
      simp only [handleRxRspro] at hr
      split_ifs at hr with ha
      · exact bankConn_turn hg ((accepts_established (.inr rfl)).mp ha) hr
      · obtain rfl := Except.ok.inj hr
        refine .still (.of_front rfl) fun a => ?_
        simp only [event, rxEvent, ha, Bool.false_and, Bool.false_eq_true, if_false]
        exact quiet_ne a
  | createMappingRes r =>
      simp only [handleRxRspro] at hr
      split_ifs at hr with ha
      · exact .ack c (by simp only [event, rxEvent, ha, if_true]) hr
      · obtain rfl := Except.ok.inj hr
        refine .still (.of_front rfl) fun a => ?_
        simp only [event, rxEvent, ha, Bool.false_eq_true, if_false]
        exact quiet_ne a
  | removeMappingRes r =>
      simp only [handleRxRspro] at hr
      split_ifs at hr with ha
      · exact .unmap c r rfl (by simp only [event, rxEvent, ha, if_true]) hr
      · obtain rfl := Except.ok.inj hr
        refine .still (.of_front rfl) fun a => ?_
        simp only [event, rxEvent, ha, Bool.false_eq_true, if_false]
        exact quiet_ne a
  | configClientIdRes r =>
      simp only [handleRxRspro] at hr
      split_ifs at hr with ha
      · exact absurd ha (hg.accepts_configClRes c)
      · obtain rfl := Except.ok.inj hr
        exact .still (.of_front rfl) quiet_ne
  | _ =>
      obtain rfl := Except.ok.inj hr
      exact .still (.of_front rfl) quiet_ne

/-- **What each step of the server does to the views.**  Keep-alive timeouts of banks, which leave
the connection behind without its socket, are left out. -/
theorem step_turn (hg : s.Good) {op : Op} (h : lts.step s op s')
    (hka : ∀ c, op = .kaTimeout c → c ∉ s.banks) : Turn s op s' := by
  obtain ⟨hen, hp⟩ := lts_step.mp h
  have hev : (∀ c r, op ≠ .rx c r) → ∀ c, s.event op ≠ .ack c ∧ s.event op ≠ .unmap c := by
    intro hrx c
    refine ⟨fun e => ?_, fun e => ?_⟩
    · obtain ⟨r, rfl⟩ := event_eq_ack e
      exact hrx c _ rfl
    · obtain ⟨r, rfl⟩ := event_eq_unmap e
      exact hrx c _ rfl
  cases op with
  | post bank client =>
      obtain rfl := Except.ok.inj hp
      obtain ⟨_, _, hr, hs⟩ := post_spec s bank client
      exact .still (.of_front (front_of_roster hr hs)) (hev fun _ _ => nofun)
  | del mapId =>
      obtain ⟨t, ht, rfl⟩ := del_marks hp
      obtain ⟨_, hr, hs⟩ := markAll_spec _ s t ht
      exact .still (.of_front (front_of_roster hr hs)) (hev fun _ _ => nofun)
  | globalReset =>
      obtain ⟨t, ht, rfl⟩ := globalReset_marks hp
      obtain ⟨_, hr, hs⟩ := markAll_spec _ s t ht
      exact .still (.of_front (front_of_roster hr hs)) (hev fun _ _ => nofun)
  | eventFd =>
      obtain rfl := Except.ok.inj hp
      exact .still (.of_front (front_eventFdCb s)) (hev fun _ _ => nofun)
  | accept addr =>
      obtain rfl := Except.ok.inj hp
      exact .accept addr rfl rfl
  | rx c pdu => exact rx_turn hg hp
  | push c =>
      obtain rfl := Except.ok.inj hp
      exact .still (.of_front (front_dispatchPush s c)) (hev fun _ _ => nofun)
  | closed c =>
      obtain rfl := Except.ok.inj hp
      exact .still (still_closed hg hen) (hev fun _ _ => nofun)
  | kaTimeout c =>
      obtain rfl := Except.ok.inj hp
      exact .still (still_term hg hen (hka c rfl)) (hev fun _ _ => nofun)
  | timeout c =>
      obtain rfl := Except.ok.inj hp
      obtain ⟨ho, hnb⟩ := hg.timerRunning hen
      exact .still (still_term hg ho hnb) (hev fun _ _ => nofun)

end Server
end Remsim
