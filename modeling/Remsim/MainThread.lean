import Remsim.Front
import Remsim.Outstanding
import Remsim.Teardown

/-! # The registry of connections and the eventfd callback

Two results about the main thread of the server.  In every run each connection is in the one list
that its FSM state stands for, identities in a list are unique, and a refused connection is dead to
the mappings: nothing is sent on it any more and nothing that happens on it has an effect on
mappings or other connections (`reach_registered`).

A wake-up through the eventfd is to flush the queues of all banks.  `event_fd_cb()` asks
`llist_empty()` where it means the opposite, and flushes a bank unless both of its queues hold
something (`flushed_iff`). -/

namespace Remsim
namespace Server

variable {s s' : Server} {c k : ConnId}

/-! ### The eventfd callback -/

/-- The queues of a bank are flushed by the step to `s'`: both are empty, every mapping of either
is in the next list and state, and one request for each was sent, in list order. -/
structure Flushed (s s' : Server) (c : ConnId) : Prop where
  newEmpty : s'.maps c .mapsNew = []
  delreqEmpty : s'.maps c .mapsDelreq = []
  unacked : ∀ m ∈ s.maps c .mapsNew, m ∈ s'.maps c .mapsUnack ∧
    (s'.heap m).map SlotMapping.state = some .unacknowledged
  deleting : ∀ m ∈ s.maps c .mapsDelreq, m ∈ s'.maps c .mapsDeleting ∧
    (s'.heap m).map SlotMapping.state = some .deleting
  sent : ∃ creates removes, s'.sent c = s.sent c ++ creates ++ removes ∧
    creates.map Tx.about = (s.maps c .mapsNew).map some ∧
    removes.map Tx.about = (s.maps c .mapsDelreq).map some ∧
    (∀ t ∈ creates, ∃ m x, t.about = some m ∧ s.heap m = some x ∧
      t.pdu = slotmap2CreateMappingReq x) ∧
    ∀ t ∈ removes, ∃ m x, t.about = some m ∧ s.heap m = some x ∧
      t.pdu = slotmap2RemoveMappingReq x

theorem mem_requests {b : Book} {f : SlotMapping → RsproPDU} {ms : List MapId} {t : Tx}
    (h : t ∈ ms.filterMap fun m => (b.heap m).map fun x => (⟨f x, some m⟩ : Tx)) :
    ∃ m x, t.about = some m ∧ b.heap m = some x ∧ t.pdu = f x := by
  obtain ⟨m, _, hm⟩ := List.mem_filterMap.mp h
  obtain ⟨x, hx, rfl⟩ := Option.map_eq_some_iff.mp hm
  exact ⟨m, x, rfl, hx, rfl⟩

theorem flushed_of_push (hg : s.Good) (hg' : s'.Good)
    (hmaps : ∀ l, s'.maps c l = (s.book.push c).maps c l)
    (hsent : s'.sent c = s.sent c ++ s.book.pushTxs c) : Flushed s s' c := by
  have hm := fun l => (hmaps l).trans (hg.book.push_maps c c l)
  simp only [if_true] at hm
  have hstate : ∀ {l m}, m ∈ s'.maps c l → (s'.heap m).map SlotMapping.state = some l.state := by
    intro l m hml
    obtain ⟨x, hx, hst, _⟩ := hg'.book.linked c l m hml
    have hx' : s'.heap m = some x := hx
    rw [hx', Option.map_some, hst]
  have hmem : ∀ m ∈ s.maps c .mapsNew, m ∈ s'.maps c .mapsUnack := by
    intro m h
    rw [hm .mapsUnack]
    exact List.mem_append_right _ h
  have hmem' : ∀ m ∈ s.maps c .mapsDelreq, m ∈ s'.maps c .mapsDeleting := by
    intro m h
    rw [hm .mapsDeleting]
    exact List.mem_append_right _ h
  refine ⟨hm .mapsNew, hm .mapsDelreq, fun m h => ⟨hmem m h, hstate (hmem m h)⟩,
    fun m h => ⟨hmem' m h, hstate (hmem' m h)⟩, ?_⟩
  refine ⟨_, _, hsent.trans (List.append_assoc _ _ _).symm, ?_, ?_, fun t ht => mem_requests ht,
    fun t ht => mem_requests ht⟩
  · exact (Book.map_filterMap_tx_of_alloc (k := .create) fun m h => hg.book.heap_of_mem h).2
  · exact (Book.map_filterMap_tx_of_alloc (k := .remove) fun m h => hg.book.heap_of_mem h).2

/-- **A wake-up flushes the queues of all banks exactly when no bank has both a queued creation and
a queued deletion.** -/
theorem flushed_iff (hg : s.Good) (hp : s.eventfd = true)
    (hall : ∀ c ∈ s.banks, s.fi c = some .connectedBankd) :
    (s.eventFdCb.eventfd = false ∧ (∀ c, c ∉ s.banks → s.eventFdCb.sent c = s.sent c) ∧
        ∀ c ∈ s.banks, Flushed s s.eventFdCb c) ↔
      ∀ c ∈ s.banks, s.maps c .mapsNew = [] ∨ s.maps c .mapsDelreq = [] := by
  have heq : s.eventFdCb = s.banks.foldl fdStep { s with eventfd := false } := by
    unfold eventFdCb
    rw [if_pos hp]
    rfl
  obtain ⟨hb, _, he, hs⟩ := fdLoop_spec s.banks { s with eventfd := false } hg.book
    (hg.roster.nodup .bank)
  rw [← heq] at hb he hs
  have hperf := eventFd_performs hg hp
  have hnd : (s.banks.filter s.pushable).Nodup := (hg.roster.nodup .bank).filter _
  have hpush : ∀ c ∈ s.banks, (c ∈ s.banks.filter s.pushable ↔
      s.maps c .mapsNew = [] ∨ s.maps c .mapsDelreq = []) := by
    intro c hc
    rw [List.mem_filter, pushable, (accepts_bankd (.inl rfl)).mpr (hall c hc)]
    simp [hc]
  have hmaps : ∀ c l, s.eventFdCb.maps c l =
      if c ∈ s.banks.filter s.pushable then (s.book.push c).maps c l else s.maps c l := by
    intro c l
    have := congrArg (fun b : Book => b.maps c l) hb
    exact this.trans (Book.Inv.pushAll_maps _ hg.book hnd c l)
  constructor
  · rintro ⟨_, _, hfl⟩ c hc
    by_contra hne
    have hnot := mt (hpush c hc).mp hne
    have h₁ := (hfl c hc).newEmpty
    rw [hmaps, if_neg hnot] at h₁
    exact hne (.inl h₁)
  · intro h
    refine ⟨he, fun c hc => ?_, fun c hc => ?_⟩
    · refine (hs c).trans ?_
      rw [if_neg fun hm => hc (List.mem_of_mem_filter hm), List.append_nil]
    · have hin := (hpush c hc).mpr (h c hc)
      refine flushed_of_push hg (hperf.good hg) (fun l => ?_) ?_
      · rw [hmaps, if_pos hin]
      · refine (hs c).trans ?_
        rw [if_pos (show c ∈ s.banks.filter ({ s with eventfd := false } : Server).pushable from hin)]
        rfl

/-- The state after `bankRun` and one more creation, which is still queued. -/
def oneQueued : Server := Transition.after stepOp initial (bankRun ++ [.post ⟨1, 1⟩ ⟨6, 0⟩])

theorem good_oneQueued : oneQueued.Good :=
  reach_good (Transition.reach_after (C := Transition.Lts.Any) rfl rfl (by decide))

/-- The wake-up for that creation flushes the queue. -/
theorem oneQueued_flushed :
    oneQueued.maps 0 .mapsNew = [1] ∧ Flushed oneQueued oneQueued.eventFdCb 0 := by
  have h := (flushed_iff good_oneQueued (by decide) (by decide)).mpr (by decide)
  exact ⟨by decide, h.2.2 0 (by decide)⟩

/-- The active mapping is deleted as well before the wake-up. -/
def bothQueued : Server :=
  Transition.after stepOp initial (bankRun ++ [.post ⟨1, 1⟩ ⟨6, 0⟩, .del 65536])

theorem good_bothQueued : bothQueued.Good :=
  reach_good (Transition.reach_after (C := Transition.Lts.Any) rfl rfl (by decide))

/-- The wake-up for both leaves them in their queues. -/
theorem bothQueued_not_flushed :
    bothQueued.Good ∧ bothQueued.eventfd = true ∧
      (∀ c ∈ bothQueued.banks, bothQueued.fi c = some .connectedBankd) ∧
      bothQueued.eventFdCb.maps 0 .mapsNew = [1] ∧
      bothQueued.eventFdCb.maps 0 .mapsDelreq = [0] ∧
      ¬∀ c ∈ bothQueued.banks, Flushed bothQueued bothQueued.eventFdCb c := by
  refine ⟨good_bothQueued, by decide, by decide, by decide, by decide, fun h => ?_⟩
  exact absurd (h 0 (by decide)).newEmpty (by decide)

/-! ### Connections that a step is not about -/

/-- The connection a step happens on. -/
def Op.conn : Op → Option ConnId
  | .rx c _ => some c
  | .push c => some c
  | .closed c => some c
  | .kaTimeout c => some c
  | .timeout c => some c
  | _ => none

/-- The FSM of a connection is as before, and nothing was sent on it unless it is a client or a
bank. -/
structure Apart (s s' : Server) (c : ConnId) : Prop where
  fi : s'.fi c = s.fi c
  sent : s.fi c ≠ some .connectedClient → s.fi c ≠ some .connectedBankd → s'.sent c = s.sent c

theorem Apart.of_conns (hc : s'.conns c = s.conns c) (hs : s'.sent c = s.sent c) :
    Apart s s' c := ⟨by rw [Server.fi, hc, Server.fi], fun _ _ => hs⟩

theorem Apart.refl (s : Server) (c : ConnId) : Apart s s c := ⟨rfl, fun _ _ => rfl⟩

theorem Apart.trans {t : Server} (h : Apart s t c) (h' : Apart t s' c) : Apart s s' c := by
  refine ⟨h'.fi.trans h.fi, fun hc hb => (h'.sent ?_ ?_).trans (h.sent hc hb)⟩
  · rw [h.fi]
    exact hc
  · rw [h.fi]
    exact hb

theorem Calm.fi_eq (h : Calm s s') (c : ConnId) : s'.fi c = s.fi c := by
  have hm := congrArg (Option.map Conn.fi) (h.roster.conns c)
  rw [Option.map_map, Option.map_map] at hm
  exact ListLib.bind_congr_map hm

theorem updateClientForSlotmap_apart {x : SlotMapping} {bc : Option ConnId}
    (h : s.updateClientForSlotmap x bc = .ok s') : Apart s s' c := by
  refine ⟨(updateClientForSlotmap_calm h).fi_eq c, fun hc _ => ?_⟩
  cases hk : s.clientConnBySlot x.client with
  | none =>
      rw [updateClientForSlotmap_none hk] at h
      rw [← Except.ok.inj h]
  | some k =>
      rw [updateClientForSlotmap_eq hk] at h
      cases ha : s.bankdAddr x (bc <|> s.bankdConnById x.bank.bankId) with
      | error e =>
          rw [ha] at h
          cases h
      | ok o =>
          rw [ha] at h
          obtain rfl := Except.ok.inj h
          cases o with
          | none => rfl
          | some p =>
              simp only
              split_ifs with hacc
              · -- the request goes to a client, which `c` is not
                have hne : c ≠ k := by
                  rintro rfl
                  obtain ⟨st, hst, hmask⟩ := accepts_eq.mp hacc.2
                  cases st <;> first | exact hc hst | cases hmask
                unfold clntStConnectedClient
                split
                · rfl
                · exact Function.update_of_ne hne _ _
              · rfl

theorem onenter_apart (h : s.clntStConnectedClientOnenter k = .ok s') : Apart s s' c := by
  unfold clntStConnectedClientOnenter at h
  split at h
  · rw [← Except.ok.inj h]
    exact Apart.refl s c
  · split at h
    · rw [← Except.ok.inj h]
      exact Apart.refl s c
    · split at h
      · cases h
      · exact updateClientForSlotmap_apart h

/-- The loops of `CLNTC_E_PUSH` only send on their connection. -/
theorem push_apart (s : Server) (hne : c ≠ k) : Apart s (s.push k) c := by
  have hone : ∀ (t : Server) req st dst m,
      ((t.pushOne k req st dst m).conns c, (t.pushOne k req st dst m).sent c) =
        (t.conns c, t.sent c) := by
    intro t req st dst m
    unfold pushOne
    split
    · rfl
    · exact congrArg (Prod.mk _) (Function.update_of_ne hne _ _)
  have hp : ((s.push k).conns c, (s.push k).sent c) = (s.conns c, s.sent c) := by
    unfold push
    simp only
    rw [ListLib.foldl_fixed (fun t : Server => (t.conns c, t.sent c)) _ fun t m => hone t _ _ _ m,
      ListLib.foldl_fixed (fun t : Server => (t.conns c, t.sent c)) _ fun t m => hone t _ _ _ m]
  exact .of_conns (Prod.mk.inj hp).1 (Prod.mk.inj hp).2

theorem dispatchPush_apart (s : Server) (hne : c ≠ k) : Apart s (s.dispatchPush k) c := by
  unfold dispatchPush
  split_ifs
  · exact push_apart s hne
  · exact Apart.refl s c

theorem term_apart (hg : s.Good) (ho : s.isOpen k = true) (hne : c ≠ k) :
    Apart s (s.term k) c := by
  obtain ⟨q, hq, _, hp⟩ := hg.open_iff.mp ho
  rw [term, teardownDepth, fsmInstTerm_eq hq hp 0]
  exact .of_conns (modConn_conns_of_ne hne _) rfl

theorem closed_apart (hg : s.Good) (ho : s.isOpen k = true) (hne : c ≠ k) :
    Apart s (s.tcpDown k) c := by
  obtain ⟨_, hr, _, hs⟩ := closed_spec hg ho
  have hconns : (s.tcpDown k).conns = Function.update s.conns k none := congrArg Roster.conns hr
  exact .of_conns (by rw [hconns, Function.update_of_ne hne]) (by rw [hs])

theorem reject_apart {f : Conn → Conn} {prev : ConnId} {res : RsproPDU}
    (h : (s.modConn k f).reject k prev res = .ok s') (hne : c ≠ k) : Apart s s' c := by
  unfold reject at h
  split at h
  · cases h
  · rw [← Except.ok.inj h]
    refine .of_conns ?_ (Function.update_of_ne hne _ _)
    rw [setFi, modConn_conns_of_ne hne]
    exact modConn_conns_of_ne hne f

theorem acceptBank_apart (s : Server) (f : Conn → Conn) (hne : c ≠ k) :
    Apart s ((s.modConn k f).acceptBank k) c := by
  unfold acceptBank
  refine Apart.trans ?_ (dispatchPush_apart _ hne)
  have hfix := fun t => onenter_fixed (fun t : Server => (t.conns c, t.sent c))
    (fun _ _ _ _ => rfl) t k
  refine .of_conns ((Prod.mk.inj (hfix _)).1.trans ?_) ((Prod.mk.inj (hfix _)).2.trans ?_)
  · rw [setFi, modConn_conns_of_ne hne]
    exact modConn_conns_of_ne hne f
  · exact Function.update_of_ne hne _ _

theorem acceptClient_apart (hg : s.Good) (h : s.fi k = some .established) {slot : ClientSlot}
    (hr : (s.modConn k fun q => { q with clientSlot := slot }).acceptClient k = .ok s')
    (hne : c ≠ k) : Apart s s' c := by
  rw [acceptClient_eq] at hr
  obtain ⟨q, hq, _⟩ := hg.established h
  have hj : Apart s (s.joined k slot) c :=
    .of_conns (by rw [joined_conns hq, Function.update_of_ne hne]) (Function.update_of_ne hne _ _)
  exact hj.trans (onenter_apart hr)

theorem createMapRes_apart (hr : s.createMapRes k = .ok s') : Apart s s' c := by
  unfold createMapRes at hr
  split at hr
  · cases hr
  · rename_i m _ _
    have h₀ : Apart s (s.slotmapStateChange m .active (some (k, .mapsActive))) c :=
      .of_conns rfl rfl
    simp only at hr
    split at hr
    · cases hr
    · exact h₀.trans (updateClientForSlotmap_apart hr)

theorem removeMapRes_apart (hr : s.removeMapRes k = .ok s') : Apart s s' c := by
  unfold removeMapRes at hr
  split at hr
  · cases hr
  · split at hr
    · cases hr
    · rename_i x _
      split_ifs at hr
      cases hu : s.updateClientForSlotmap x (some k) with
      | error e =>
          simp only [hu, bind, Except.bind] at hr
          cases hr
      | ok t =>
          simp only [hu, bind, Except.bind] at hr
          rw [← Except.ok.inj hr]
          exact (updateClientForSlotmap_apart hu).trans (.of_conns rfl rfl)

theorem rx_apart (hg : s.Good) {pdu : RsproPDU} (hr : s.handleRxRspro k pdu = .ok s')
    (hne : c ≠ k) : Apart s s' c := by
  have hsame : ∀ {t : Server}, Except.ok (ε := Fault) s = .ok t → Apart s t c := by
    rintro t ⟨⟩
    exact Apart.refl s c
  have hterm : ∀ {t : Server}, s.fi k = some .established →
      Except.ok (ε := Fault) (s.term k) = .ok t → Apart s t c := by
    rintro t h ⟨⟩
    obtain ⟨_, _, _, _, _, _, _, ho⟩ := hg.established h
    exact term_apart hg ho hne
  cases pdu with
  | connectClientReq identity clientSlot =>
      simp only [handleRxRspro] at hr
      split_ifs at hr with ha
      · have h := (accepts_established (.inl rfl)).mp ha
        unfold establishedClientConn at hr
        split_ifs at hr with hid
        · exact hterm h hr
        · split at hr
          · exact hterm h hr
          · simp only at hr
            split at hr
            · exact acceptClient_apart hg h hr hne
            · split_ifs at hr
              · exact reject_apart hr hne
              · exact acceptClient_apart hg h hr hne
      · exact hsame hr
  | connectBankReq identity bankId n =>
      simp only [handleRxRspro] at hr
      split_ifs at hr with ha
      · have h := (accepts_established (.inr rfl)).mp ha
        unfold establishedBankConn at hr
        split_ifs at hr with hid
        · exact hterm h hr
        · simp only at hr
          split at hr
          · rw [← Except.ok.inj hr]
            exact acceptBank_apart s _ hne
          · split_ifs at hr
            · exact reject_apart hr hne
            · rw [← Except.ok.inj hr]
              exact acceptBank_apart s _ hne
      · exact hsame hr
  | createMappingRes r =>
      simp only [handleRxRspro] at hr
      split_ifs at hr with ha
      · exact createMapRes_apart hr
      · exact hsame hr
  | removeMappingRes r =>
      simp only [handleRxRspro] at hr
      split_ifs at hr with ha
      · exact removeMapRes_apart hr
      · exact hsame hr
  | configClientIdRes r =>
      simp only [handleRxRspro] at hr
      split_ifs at hr with ha
      · exact absurd ha (hg.accepts_configClRes k)
      · exact hsame hr
  | _ => exact hsame hr

/-- A step leaves the FSMs alone that it does not happen on, and sends only on connections of
clients and banks. -/
theorem step_apart (hg : s.Good) {op : Op} (h : lts.step s op s') (hop : op.conn ≠ some c)
    (hnew : ∀ addr, op = .accept addr → c ≠ s.nextConn) : Apart s s' c := by
  obtain ⟨hen, hp⟩ := lts_step.mp h
  have hroster : ∀ {t : Server}, t.roster = s.roster → t.sent = s.sent → Apart s t c := by
    intro t hr hs
    exact .of_conns (congrArg (fun r : Roster => r.conns c) hr) (by rw [hs])
  have hne : ∀ {k : ConnId}, op.conn = some k → c ≠ k := by
    rintro k hk rfl
    exact hop hk
  cases op with
  | post bank client =>
      obtain rfl := Except.ok.inj hp
      obtain ⟨_, _, hr, hs⟩ := post_spec s bank client
      exact hroster hr hs
  | del mapId =>
      obtain ⟨t, ht, rfl⟩ := del_marks hp
      obtain ⟨_, hr, hs⟩ := markAll_spec _ s t ht
      exact hroster hr hs
  | globalReset =>
      obtain ⟨t, ht, rfl⟩ := globalReset_marks hp
      obtain ⟨_, hr, hs⟩ := markAll_spec _ s t ht
      exact hroster hr hs
  | eventFd =>
      obtain rfl := Except.ok.inj hp
      have heq : s.eventFdCb = s.banks.foldl fdStep { s with eventfd := false } := by
        unfold eventFdCb
        rw [if_pos (show s.eventfd = true from hen)]
        rfl
      obtain ⟨_, hr, _, hs⟩ := fdLoop_spec s.banks { s with eventfd := false } hg.book
        (hg.roster.nodup .bank)
      rw [← heq] at hr hs
      have hconns : s.eventFdCb.conns c = s.conns c := congrArg (fun r : Roster => r.conns c) hr
      refine ⟨by rw [Server.fi, hconns, Server.fi], fun _ hb => (hs c).trans ?_⟩
      rw [if_neg, List.append_nil]
      intro hm
      have hacc := (List.mem_filter.mp hm).2
      rw [pushable, Bool.and_eq_true] at hacc
      exact hb ((accepts_bankd (.inl rfl)).mp hacc.1)
  | accept addr =>
      obtain rfl := Except.ok.inj hp
      exact .of_conns (Function.update_of_ne (hnew addr rfl) _ _) rfl
  | rx k pdu => exact rx_apart hg hp (hne rfl)
  | push k =>
      obtain rfl := Except.ok.inj hp
      exact dispatchPush_apart s (hne rfl)
  | closed k =>
      obtain rfl := Except.ok.inj hp
      exact closed_apart hg hen (hne rfl)
  | kaTimeout k =>
      obtain rfl := Except.ok.inj hp
      exact term_apart hg hen (hne rfl)
  | timeout k =>
      obtain rfl := Except.ok.inj hp
      exact term_apart hg (hg.timerRunning hen).1 (hne rfl)

/-! ### The connection that a step is about -/

/-- The answer to a connection with an identity that is in use. -/
def Refusal (t : Tx) : Prop :=
  t.pdu = .connectClientRes .remsimServer .identityInUse ∨
    t.pdu = .connectBankRes .remsimServer .identityInUse

/-- What a step does to the connection it happens on. -/
inductive Own (s s' : Server) (c : ConnId) : Prop
  | same (h : s' = s)
  | ends (fi : s'.fi c = none) (sent : s'.sent = s.sent)
      (others : ∀ k, k ≠ c → s'.conns k = s.conns k) (book : c ∉ s.banks → s'.book = s.book)
  | refused (fi : s.fi c = some .established) (fi' : s'.fi c = some .rejected) (t : Tx)
      (ht : Refusal t) (sent : s'.sent c = s.sent c ++ [t])
  | identified (fi : s.fi c = some .established ∨ s'.fi c = s.fi c)
      (h : s'.fi c = some .connectedClient ∨ s'.fi c = some .connectedBankd)

theorem own_term (hg : s.Good) (ho : s.isOpen c = true) : Own s (s.term c) c := by
  obtain ⟨q, hq, _, hp⟩ := hg.open_iff.mp ho
  rw [term, teardownDepth, fsmInstTerm_eq hq hp 0]
  exact .ends (fi_detach_self s c) rfl (fun k hk => modConn_conns_of_ne hk _)
    fun _ => book_detach s c

theorem own_closed (hg : s.Good) (ho : s.isOpen c = true) : Own s (s.tcpDown c) c := by
  obtain ⟨_, hr, _, hs⟩ := closed_spec hg ho
  have hconns : (s.tcpDown c).conns = Function.update s.conns c none := congrArg Roster.conns hr
  refine .ends ?_ hs (fun k hk => by rw [hconns, Function.update_of_ne hk]) fun hb => ?_
  · rw [Server.fi, hconns, Function.update_self]
    rfl
  · have hp := (closed_performs hg ho).ledger
    simp only [event, if_neg hb] at hp
    exact congrArg Ledger.toBook hp

theorem own_reject (hg : s.Good) (h : s.fi c = some .established) {f : Conn → Conn}
    {prev : ConnId} {res : RsproPDU} (hres : Refusal ⟨res, none⟩)
    (hr : (s.modConn c f).reject c prev res = .ok s') : Own s s' c := by
  obtain ⟨q, hq, _⟩ := hg.established h
  unfold reject at hr
  split at hr
  · cases hr
  · obtain rfl := Except.ok.inj hr
    refine .refused h ?_ _ hres (Function.update_self _ _ _)
    rw [Server.fi, setFi, modConn_conns_self]
    show ((((s.modConn c f).conns c).map _).bind Conn.fi) = _
    rw [modConn_conns_self, hq]
    rfl

theorem own_acceptClient (hg : s.Good) (h : s.fi c = some .established) {slot : ClientSlot}
    (hr : (s.modConn c fun q => { q with clientSlot := slot }).acceptClient c = .ok s') :
    Own s s' c := by
  rw [acceptClient_eq] at hr
  obtain ⟨q, hq, _⟩ := hg.established h
  refine .identified (.inl h) (.inl ?_)
  rw [(onenter_calm hr).fi_eq, Server.fi, joined_conns hq, Function.update_self]
  rfl

theorem own_acceptBank (hg : s.Good) (h : s.fi c = some .established) (id n : UInt16) :
    Own s ((s.modConn c fun k => { k with bankId := id, numSlots := n }).acceptBank c) c := by
  obtain ⟨q, hq, _⟩ := hg.established h
  refine .identified (.inl h) (.inr ?_)
  have hconns : ∀ t : Server, (t.acceptBank c).conns c =
      (t.conns c).map fun k => { k with fi := some .connectedBankd } := fun t =>
    (congrArg (fun f => f.1 c) (front_acceptBank t c)).trans (Function.update_self _ _ _)
  rw [Server.fi, hconns, modConn_conns_self, hq]
  rfl

theorem own_bank (hfi : s'.fi c = s.fi c) {ev : ClntEvent}
    (hev : ev = .push ∨ ev = .createMapRes ∨ ev = .removeMapRes) (ha : s.accepts c ev = true) :
    Own s s' c :=
  .identified (.inr hfi) (.inr (hfi.trans ((accepts_bankd hev).mp ha)))

theorem own_rx (hg : s.Good) {pdu : RsproPDU} (hr : s.handleRxRspro c pdu = .ok s') :
    Own s s' c := by
  have hsame : ∀ {t : Server}, Except.ok (ε := Fault) s = .ok t → Own s t c := by
    rintro t ⟨⟩
    exact .same rfl
  have hterm : ∀ {t : Server}, s.fi c = some .established →
      Except.ok (ε := Fault) (s.term c) = .ok t → Own s t c := by
    rintro t h ⟨⟩
    obtain ⟨_, _, _, _, _, _, _, ho⟩ := hg.established h
    exact own_term hg ho
  cases pdu with
  | connectClientReq identity clientSlot =>
      simp only [handleRxRspro] at hr
      split_ifs at hr with ha
      · have h := (accepts_established (.inl rfl)).mp ha
        unfold establishedClientConn at hr
        split_ifs at hr with hid
        · exact hterm h hr
        · split at hr
          · exact hterm h hr
          · simp only at hr
            split at hr
            · exact own_acceptClient hg h hr
            · split_ifs at hr
              · exact own_reject hg h (.inl rfl) hr
              · exact own_acceptClient hg h hr
      · exact hsame hr
  | connectBankReq identity bankId n =>
      simp only [handleRxRspro] at hr
      split_ifs at hr with ha
      · have h := (accepts_established (.inr rfl)).mp ha
        unfold establishedBankConn at hr
        split_ifs at hr with hid
        · exact hterm h hr
        · simp only at hr
          split at hr
          · rw [← Except.ok.inj hr]
            exact own_acceptBank hg h _ _
          · split_ifs at hr
            · exact own_reject hg h (.inr rfl) hr
            · rw [← Except.ok.inj hr]
              exact own_acceptBank hg h _ _
      · exact hsame hr
  | createMappingRes r =>
      simp only [handleRxRspro] at hr
      split_ifs at hr with ha
      · exact own_bank (createMapRes_apart hr).fi (.inr (.inl rfl)) ha
      · exact hsame hr
  | removeMappingRes r =>
      simp only [handleRxRspro] at hr
      split_ifs at hr with ha
      · exact own_bank (removeMapRes_apart hr).fi (.inr (.inr rfl)) ha
      · exact hsame hr
  | configClientIdRes r =>
      simp only [handleRxRspro] at hr
      split_ifs at hr with ha
      · exact absurd ha (hg.accepts_configClRes c)
      · exact hsame hr
  | _ => exact hsame hr

theorem step_own (hg : s.Good) {op : Op} (h : lts.step s op s') (hop : op.conn = some c) :
    Own s s' c := by
  obtain ⟨hen, hp⟩ := lts_step.mp h
  cases op with
  | rx k pdu =>
      obtain rfl := Option.some.inj hop
      exact own_rx hg hp
  | push k =>
      obtain rfl := Option.some.inj hop
      obtain rfl := Except.ok.inj hp
      unfold dispatchPush
      split_ifs with ha
      · have hr := (push_spec hg.book k).2.1
        exact own_bank (congrArg (fun r : Roster => (r.conns k).bind Conn.fi) hr) (.inl rfl) ha
      · exact .same rfl
  | closed k =>
      obtain rfl := Option.some.inj hop
      obtain rfl := Except.ok.inj hp
      exact own_closed hg hen
  | kaTimeout k =>
      obtain rfl := Option.some.inj hop
      obtain rfl := Except.ok.inj hp
      exact own_term hg hen
  | timeout k =>
      obtain rfl := Option.some.inj hop
      obtain rfl := Except.ok.inj hp
      exact own_term hg (hg.timerRunning hen).1
  | _ => cases hop

/-! ### The registry -/

/-- A connection that was refused, or what is left of it. -/
structure Refused (s : Server) (c : ConnId) : Prop where
  old : c < s.nextConn
  bank : c ∉ s.banks
  fi : s.fi c = none ∨ s.fi c = some .rejected

/-- A step changes no mapping, sends nothing, and touches no other connection. -/
structure Idle (s s' : Server) (c : ConnId) : Prop where
  slotmaps : s'.toSlotmaps = s.toSlotmaps
  maps : s'.maps = s.maps
  sent : s'.sent = s.sent
  others : ∀ k, k ≠ c → s'.conns k = s.conns k

theorem Good.refused (hg : s.Good) (h : s.fi c = some .rejected) : Refused s c := by
  obtain ⟨q, hq, _⟩ := fi_eq_some.mp h
  have hm : c ∈ s.roster.members .connection := hg.mem_of_fi h rfl
  refine ⟨hg.roster.fresh c q hq, fun hb => ?_, .inr h⟩
  cases hg.roster.oneRole c .connection .bank hm hb

theorem Refused.own_step (h : Refused s c) (hg : s.Good) {op : Op} (hst : lts.step s op s')
    (hop : op.conn = some c) : Idle s s' c ∧ (s'.fi c = none ∨ s'.fi c = some .rejected) := by
  cases step_own hg hst hop with
  | same e =>
      subst e
      exact ⟨⟨rfl, rfl, rfl, fun _ _ => rfl⟩, h.fi⟩
  | ends hfi hs ho hb =>
      have hbook := hb h.bank
      exact ⟨⟨congrArg Book.toSlotmaps hbook, congrArg Book.maps hbook, hs, ho⟩, .inl hfi⟩
  | refused hfi =>
      rcases h.fi with e | e <;> rw [e] at hfi <;> cases hfi
  | identified hfi hc =>
      rcases hfi with hfi | hfi
      · rcases h.fi with e | e <;> rw [e] at hfi <;> cases hfi
      · rw [hfi] at hc
        rcases h.fi with e | e <;> rw [e] at hc <;> rcases hc with hc | hc <;> cases hc

theorem Refused.step (h : Refused s c) (hg : s.Good) {op : Op} (hst : lts.step s op s') :
    Refused s' c ∧ s'.sent c = s.sent c := by
  have hp := step_performs hg hst
  have hfi : (s'.fi c = none ∨ s'.fi c = some .rejected) ∧ s'.sent c = s.sent c := by
    by_cases hop : op.conn = some c
    · obtain ⟨hidle, hfi⟩ := h.own_step hg hst hop
      exact ⟨hfi, by rw [hidle.sent]⟩
    · have ha := step_apart hg hst hop fun _ _ => Nat.ne_of_lt h.old
      refine ⟨by rw [ha.fi]; exact h.fi, ha.sent ?_ ?_⟩
      · rcases h.fi with e | e <;> rw [e] <;> nofun
      · rcases h.fi with e | e <;> rw [e] <;> nofun
  refine ⟨⟨Nat.lt_of_lt_of_le h.old hp.ids.nextConn, fun hb => ?_, hfi.1⟩, hfi.2⟩
  obtain ⟨id, hev⟩ := hp.event_connect hg h.bank hb
  have hlive : s'.ledger.live c = true := by
    rw [hp.ledger, hev]
    exact Function.update_self _ _ _
  rw [live_iff] at hlive
  rcases hfi.1 with e | e <;> rw [e] at hlive <;> cases hlive

/-- What was sent on connections that have not identified themselves: refusals only. -/
def Reserved (s : Server) : Prop :=
  ∀ c, s.fi c = some .established ∨ s.fi c = some .rejected ∨ s.nextConn ≤ c →
    ∀ t ∈ s.sent c, Refusal t

theorem Good.fi_fresh (hg : s.Good) (h : s.nextConn ≤ c) : s.fi c = none := by
  cases hc : s.fi c with
  | none => rfl
  | some st =>
      obtain ⟨q, hq, _⟩ := fi_eq_some.mp hc
      exact absurd (hg.roster.fresh c q hq) (Nat.not_lt.mpr h)

theorem Reserved.step (h : Reserved s) (hg : s.Good) {op : Op} (hst : lts.step s op s') :
    Reserved s' := by
  intro c hc
  have hle : s.nextConn ≤ s'.nextConn := (step_performs hg hst).ids.nextConn
  by_cases hop : op.conn = some c
  · cases step_own hg hst hop with
    | same e =>
        subst e
        exact h c hc
    | ends hfi hs =>
        rw [hs]
        rcases hc with e | e | e
        · rw [hfi] at e
          cases e
        · rw [hfi] at e
          cases e
        · exact h c (.inr (.inr (Nat.le_trans hle e)))
    | refused hfi _ t ht hs =>
        intro a ha
        rw [hs, List.mem_append, List.mem_singleton] at ha
        rcases ha with ha | rfl
        · exact h c (.inl hfi) a ha
        · exact ht
    | identified hfi hid =>
        rcases hc with e | e | e
        · rw [e] at hid
          rcases hid with e' | e' <;> cases e'
        · rw [e] at hid
          rcases hid with e' | e' <;> cases e'
        · rw [((step_performs hg hst).good hg).fi_fresh e] at hid
          rcases hid with e' | e' <;> cases e'
  · by_cases hnew : ∃ addr, op = .accept addr ∧ c = s.nextConn
    · obtain ⟨addr, rfl, rfl⟩ := hnew
      obtain ⟨_, hp⟩ := lts_step.mp hst
      rw [← Except.ok.inj hp]
      exact h s.nextConn (.inr (.inr (Nat.le_refl _)))
    · have ha := step_apart hg hst hop fun addr ho e => hnew ⟨addr, ho, e⟩
      have hc' : s.fi c = some .established ∨ s.fi c = some .rejected ∨ s.nextConn ≤ c := by
        rw [← ha.fi]
        exact hc.imp_right (Or.imp_right (Nat.le_trans hle))
      have hne : s.fi c ≠ some .connectedClient ∧ s.fi c ≠ some .connectedBankd := by
        rcases hc' with e | e | e
        · rw [e]
          exact ⟨nofun, nofun⟩
        · rw [e]
          exact ⟨nofun, nofun⟩
        · rw [hg.fi_fresh e]
          exact ⟨nofun, nofun⟩
      rw [ha.sent hne.1 hne.2]
      exact h c hc'

/-- The connection registry. -/
structure Registered (s : Server) : Prop where
  listed : ∀ c, (s.conns c).isSome = true →
    c ∈ s.connections ∧ c ∉ s.clients ∧ c ∉ s.banks ∨
      c ∉ s.connections ∧ c ∈ s.clients ∧ c ∉ s.banks ∨
      c ∉ s.connections ∧ c ∉ s.clients ∧ c ∈ s.banks
  nodup : s.connections.Nodup ∧ s.clients.Nodup ∧ s.banks.Nodup
  client_iff : ∀ c st, s.fi c = some st → (c ∈ s.clients ↔ st = .connectedClient)
  bank_iff : ∀ c st, s.fi c = some st → (c ∈ s.banks ↔ st = .connectedBankd)
  clientUnique : ∀ c ∈ s.clients, ∀ c' ∈ s.clients, ∀ k k', s.conns c = some k →
    s.conns c' = some k' → k.clientSlot = k'.clientSlot → c = c'
  bankUnique : ∀ c ∈ s.banks, ∀ c' ∈ s.banks, ∀ k k', s.conns c = some k →
    s.conns c' = some k' → k.bankId = k'.bankId → c = c'
  refused : ∀ c, s.fi c = some .rejected → (∀ t ∈ s.sent c, Refusal t) ∧
    ∀ t, lts.Steps Transition.Lts.Any s t → t.sent c = s.sent c ∧ (∀ l, t.maps c l = []) ∧
      ∀ op u, op.conn = some c → lts.step t op u → Idle t u c

theorem Good.role_iff (hg : s.Good) {st : ClntState} (hst : s.fi c = some st) (ρ : Role) :
    c ∈ s.roster.members ρ ↔ st.role = some ρ := by
  obtain ⟨k, hk, hf⟩ := fi_eq_some.mp hst
  obtain ⟨ρ', hρ', hm⟩ := hg.roster.state c k st hk hf
  rw [hρ']
  constructor
  · intro h
    rw [hg.roster.oneRole c ρ' ρ hm h]
  · intro h
    rw [← Option.some.inj h]
    exact hm

theorem Refused.steps (h : Refused s c) (hg : s.Good) {t : Server}
    (hst : lts.Steps Transition.Lts.Any s t) :
    t.Good ∧ Refused t c ∧ t.sent c = s.sent c := by
  refine hst.invariant (I := fun t => t.Good ∧ Refused t c ∧ t.sent c = s.sent c) ?_ ⟨hg, h, rfl⟩
  rintro u op v ⟨hgu, hu, hsu⟩ _ hstep
  obtain ⟨hv, hsv⟩ := hu.step hgu hstep
  exact ⟨(step_performs hgu hstep).good hgu, hv, hsv.trans hsu⟩

/-- **The registry is in order in every reachable state.** -/
theorem reach_registered (h : lts.Reach Transition.Lts.Any s) : Registered s := by
  have hg := reach_good h
  have hres : Reserved s := h.invariant_of (I := Reserved) (fun _ => reach_good)
    (fun s (hi : s = initial) => by
      subst hi
      exact fun c _ t ht => absurd ht List.not_mem_nil)
    fun _ _ _ hg _ hi _ hst => hi.step hg hst
  refine ⟨fun c hc => ?_, ⟨hg.roster.nodup .connection, hg.roster.nodup .client,
    hg.roster.nodup .bank⟩, fun c st hst => ?_, fun c st hst => ?_, fun c hc c' hc' k k' hk hk' e =>
    hg.roster.clientUnique c c' k k' hc hc' hk hk' e, fun c hc c' hc' k k' hk hk' e => ?_,
    fun c hc => ⟨hres c (.inr (.inl hc)), fun t hst => ?_⟩⟩
  · obtain ⟨ρ, hρ⟩ := (hg.roster.listed c).mp hc
    have hoff : ∀ ρ', ρ ≠ ρ' → c ∉ s.roster.members ρ' :=
      fun ρ' hne h => hne (hg.roster.oneRole c ρ ρ' hρ h)
    cases ρ with
    | connection => exact .inl ⟨hρ, hoff .client nofun, hoff .bank nofun⟩
    | client => exact .inr (.inl ⟨hoff .connection nofun, hρ, hoff .bank nofun⟩)
    | bank => exact .inr (.inr ⟨hoff .connection nofun, hoff .client nofun, hρ⟩)
  · refine (hg.role_iff hst .client).trans ?_
    cases st <;> simp [ClntState.role]
  · refine (hg.role_iff hst .bank).trans ?_
    cases st <;> simp [ClntState.role]
  · exact hg.book.bankUnique c c' k'.bankId (bankOf_eq_some.mpr ⟨hc, k, hk, e⟩)
      (bankOf_eq_some.mpr ⟨hc', k', hk', rfl⟩)
  · obtain ⟨hgt, ht, hs⟩ := (hg.refused hc).steps hg hst
    refine ⟨hs, fun l => ?_, fun op u hop hu => (ht.own_step hgt hu hop).1⟩
    exact hgt.book.maps_eq_nil (hgt.bankOf_eq_none.mpr ht.bank) l

/-- Two connections claim the same client slot; the numbers differ by 65536. -/
def twinsRun : List Op :=
  [.accept (some 1), .accept (some 2), .rx 0 (.connectClientReq .remsimClient (some ⟨5, 0⟩)),
    .rx 1 (.connectClientReq .remsimClient (some ⟨65541, 0⟩))]

/-- The second of them was refused. -/
theorem twins_registered :
    (Transition.after stepOp initial twinsRun).fi 1 = some .rejected ∧
      Registered (Transition.after stepOp initial twinsRun) :=
  ⟨by decide, reach_registered (Transition.reach_after rfl rfl (by decide))⟩

end Server
end Remsim
