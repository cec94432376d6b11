import Remsim.Registry

/-! # Server steps as ledger events

`Server.ledger` forgets what the banks cannot see.  `Server.event` is the event that an atomic step
of the server amounts to, and `step_performs` is the refinement: from a state with its connection
lists and its book in order, every step changes the ledger by that event, sends exactly the
requests of the event, and leaves the connection lists in order.  Hence both invariants hold in
every reachable state of the server (`reach_good`). -/

namespace Remsim
namespace Server

variable (s : Server)

/-- The bookkeeping part of the server state. -/
def book : Book where
  toSlotmaps := s.toSlotmaps
  maps := s.maps
  bankOf c := if c ∈ s.banks then (s.conns c).map Conn.bankId else none

/-- The ledger of the server. -/
def ledger : Ledger where
  toBook := s.book
  live c := decide (s.fi c = some .connectedBankd)
  pending := s.eventfd

/-- Bank connections that `event_fd_cb()` sends `CLNTC_E_PUSH`. -/
def pushable (c : ConnId) : Bool :=
  s.accepts c .push && ((s.maps c .mapsNew).isEmpty || (s.maps c .mapsDelreq).isEmpty)

/-- The event a received PDU amounts to. -/
def rxEvent (c : ConnId) : RsproPDU → Event
  | .connectBankReq identity bankId _ =>
      if s.accepts c .bankConn && decide (identity = .remsimBankd) &&
          (s.bankdConnById (.ofInt bankId)).isNone then
        .connect c (.ofInt bankId)
      else .quiet
  | .createMappingRes _ => if s.accepts c .createMapRes then .ack c else .quiet
  | .removeMappingRes _ => if s.accepts c .removeMapRes then .unmap c else .quiet
  | _ => .quiet

/-- The event an atomic step amounts to. -/
def event : Op → Event
  | .post bank client => .post bank client (s.bankdConnById bank.bankId)
  | .del mapId => .marks s.bankdConnById (s.mapById mapId).toList
  | .globalReset => .marks s.bankdConnById s.mappings
  | .eventFd => .eventFd (s.banks.filter s.pushable)
  | .accept _ => .quiet
  | .rx c pdu => s.rxEvent c pdu
  | .push c => if s.accepts c .push then .push c else .quiet
  | .closed c => if c ∈ s.banks then .drop c else .quiet
  | .kaTimeout c => if c ∈ s.banks then .kill c else .quiet
  | .timeout _ => .quiet

/-- The connection lists and the book are in order. -/
structure Good (s : Server) : Prop where
  roster : s.roster.Inv
  book : s.book.Inv

/-- The step to `s'` performs the event. -/
structure Performs (s : Server) (ev : Event) (s' : Server) : Prop where
  roster : s'.roster.Inv
  ids : Roster.Le s.roster s'.roster
  valid : s.ledger.Valid ev
  ledger : s'.ledger = s.ledger.apply ev
  sent : ∀ c, ∃ extra, s'.sent c = s.sent c ++ extra ∧
    extra.filter Tx.isRequest = s.ledger.requests ev c

variable {s} {s' : Server} {c : ConnId}

/-! ### Which step an event comes from -/

theorem rxEvent_cases (s : Server) (c : ConnId) (pdu : RsproPDU) :
    s.rxEvent c pdu = .quiet ∨
      (∃ bankId n, pdu = .connectBankReq .remsimBankd bankId n ∧
        s.rxEvent c pdu = .connect c (.ofInt bankId)) ∨
      (∃ r, pdu = .createMappingRes r ∧ s.rxEvent c pdu = .ack c) ∨
      ∃ r, pdu = .removeMappingRes r ∧ s.rxEvent c pdu = .unmap c := by
  cases pdu with
  | connectBankReq identity bankId n =>
      simp only [rxEvent]
      split_ifs with h
      · simp only [Bool.and_eq_true, decide_eq_true_eq] at h
        exact .inr (.inl ⟨bankId, n, by rw [h.1.2], rfl⟩)
      · exact .inl rfl
  | createMappingRes r =>
      simp only [rxEvent]
      split_ifs
      · exact .inr (.inr (.inl ⟨r, rfl, rfl⟩))
      · exact .inl rfl
  | removeMappingRes r =>
      simp only [rxEvent]
      split_ifs
      · exact .inr (.inr (.inr ⟨r, rfl, rfl⟩))
      · exact .inl rfl
  | _ => exact .inl rfl

theorem event_eq_drop {op : Op} (h : s.event op = .drop c) : op = .closed c ∧ c ∈ s.banks := by
  cases op with
  | closed c' =>
      simp only [event] at h
      split_ifs at h with hc
      obtain rfl := Event.drop.inj h
      exact ⟨rfl, hc⟩
  | rx c' pdu =>
      change s.rxEvent c' pdu = _ at h
      rcases s.rxEvent_cases c' pdu with e | ⟨_, _, _, e⟩ | ⟨_, _, e⟩ | ⟨_, _, e⟩ <;>
        (rw [e] at h; cases h)
  | push c' => simp only [event] at h; split_ifs at h
  | kaTimeout c' => simp only [event] at h; split_ifs at h
  | _ => cases h

theorem event_eq_ack {op : Op} (h : s.event op = .ack c) :
    ∃ r, op = .rx c (.createMappingRes r) := by
  cases op with
  | rx c' pdu =>
      change s.rxEvent c' pdu = _ at h
      rcases s.rxEvent_cases c' pdu with e | ⟨_, _, _, e⟩ | ⟨r, hr, e⟩ | ⟨_, _, e⟩ <;> rw [e] at h
      · cases h
      · cases h
      · obtain rfl := Event.ack.inj h
        exact ⟨r, by rw [hr]⟩
      · cases h
  | push c' => simp only [event] at h; split_ifs at h
  | closed c' => simp only [event] at h; split_ifs at h
  | kaTimeout c' => simp only [event] at h; split_ifs at h
  | _ => cases h

theorem event_eq_unmap {op : Op} (h : s.event op = .unmap c) :
    ∃ r, op = .rx c (.removeMappingRes r) := by
  cases op with
  | rx c' pdu =>
      change s.rxEvent c' pdu = _ at h
      rcases s.rxEvent_cases c' pdu with e | ⟨_, _, _, e⟩ | ⟨_, _, e⟩ | ⟨r, hr, e⟩ <;> rw [e] at h
      · cases h
      · cases h
      · cases h
      · obtain rfl := Event.unmap.inj h
        exact ⟨r, by rw [hr]⟩
  | push c' => simp only [event] at h; split_ifs at h
  | closed c' => simp only [event] at h; split_ifs at h
  | kaTimeout c' => simp only [event] at h; split_ifs at h
  | _ => cases h

theorem event_eq_connect {op : Op} {id : UInt16} (h : s.event op = .connect c id) :
    ∃ i n, op = .rx c (.connectBankReq .remsimBankd i n) ∧ id = .ofInt i := by
  cases op with
  | rx c' pdu =>
      change s.rxEvent c' pdu = _ at h
      rcases s.rxEvent_cases c' pdu with e | ⟨i, n, hr, e⟩ | ⟨_, _, e⟩ | ⟨_, _, e⟩ <;> rw [e] at h
      · cases h
      · obtain ⟨rfl, rfl⟩ := Event.connect.inj h
        exact ⟨i, n, by rw [hr], rfl⟩
      · cases h
      · cases h
  | push c' => simp only [event] at h; split_ifs at h
  | closed c' => simp only [event] at h; split_ifs at h
  | kaTimeout c' => simp only [event] at h; split_ifs at h
  | _ => cases h

theorem event_eq_push {op : Op} (h : s.event op = .push c) : op = .push c := by
  cases op with
  | rx c' pdu =>
      change s.rxEvent c' pdu = _ at h
      rcases s.rxEvent_cases c' pdu with e | ⟨_, _, _, e⟩ | ⟨_, _, e⟩ | ⟨_, _, e⟩ <;>
        (rw [e] at h; cases h)
  | push c' =>
      simp only [event] at h
      split_ifs at h
      rw [Event.push.inj h]
  | closed c' => simp only [event] at h; split_ifs at h
  | kaTimeout c' => simp only [event] at h; split_ifs at h
  | _ => cases h

/-! ### Lookups of connections -/

theorem Good.bank_conn (h : s.Good) (hc : c ∈ s.banks) : ∃ k, s.conns c = some k := by
  have := (h.roster.listed c).mpr ⟨.bank, hc⟩
  exact Option.isSome_iff_exists.mp this

theorem bankOf_eq_some {i : UInt16} :
    s.book.bankOf c = some i ↔ c ∈ s.banks ∧ ∃ k, s.conns c = some k ∧ k.bankId = i := by
  show (if c ∈ s.banks then (s.conns c).map Conn.bankId else none) = _ ↔ _
  split_ifs with h <;> simp [h]

theorem Good.bankOf_eq_none (h : s.Good) : s.book.bankOf c = none ↔ c ∉ s.banks := by
  show (if c ∈ s.banks then (s.conns c).map Conn.bankId else none) = _ ↔ _
  split_ifs with hc
  · obtain ⟨k, hk⟩ := h.bank_conn hc
    simp [hc, hk]
  · simp [hc]

theorem bankOf_of_lookup {id : UInt16} (h : s.bankdConnById id = some c) :
    s.book.bankOf c = some id := by
  have hp := List.find?_some h
  refine bankOf_eq_some.mpr ⟨List.mem_of_find?_eq_some h, ?_⟩
  cases hk : s.conns c with
  | none => simp [hk] at hp
  | some k => exact ⟨k, rfl, by simpa [hk] using hp⟩

/-- `bankd_conn_by_id()` finds the connection of a bank, if there is one. -/
theorem Good.bankdConnById_iff (h : s.Good) (i : UInt16) (k : ConnId) :
    s.bankdConnById i = some k ↔ s.book.bankOf k = some i := by
  constructor
  · exact bankOf_of_lookup
  · intro hb
    obtain ⟨hm, q, hq, hi⟩ := bankOf_eq_some.mp hb
    cases hf : s.bankdConnById i with
    | none =>
        have := List.find?_eq_none.mp hf k hm
        simp [hq, hi] at this
    | some k' =>
        have hp := List.find?_some hf
        have hm' : k' ∈ s.banks := List.mem_of_find?_eq_some hf
        cases hk' : s.conns k' with
        | none => simp [hk'] at hp
        | some q' =>
            have hb' : s.book.bankOf k' = some i :=
              bankOf_eq_some.mpr ⟨hm', q', hk', by simpa [hk'] using hp⟩
            rw [h.book.bankUnique k k' i hb hb']

theorem Good.bankdConnById_none (h : s.Good) {i : UInt16} :
    s.bankdConnById i = none ↔ ∀ k, s.book.bankOf k ≠ some i := by
  constructor
  · intro hn k hk
    rw [(h.bankdConnById_iff i k).mpr hk] at hn
    cases hn
  · intro hk
    cases hf : s.bankdConnById i with
    | none => rfl
    | some k => exact absurd ((h.bankdConnById_iff i k).mp hf) (hk k)

theorem accepts_eq {ev : ClntEvent} : s.accepts c ev = true ↔
    ∃ st, s.fi c = some st ∧ st.inEventMask ev = true := by
  unfold accepts
  cases s.fi c <;> simp

theorem accepts_bankd {ev : ClntEvent}
    (hev : ev = .push ∨ ev = .createMapRes ∨ ev = .removeMapRes) :
    s.accepts c ev = true ↔ s.fi c = some .connectedBankd := by
  rw [accepts_eq]
  constructor
  · rintro ⟨st, hst, hm⟩
    rcases hev with rfl | rfl | rfl <;> cases st <;> first | exact hst | cases hm
  · intro hst
    refine ⟨_, hst, ?_⟩
    rcases hev with rfl | rfl | rfl <;> rfl

theorem accepts_established {ev : ClntEvent} (hev : ev = .clientConn ∨ ev = .bankConn) :
    s.accepts c ev = true ↔ s.fi c = some .established := by
  rw [accepts_eq]
  constructor
  · rintro ⟨st, hst, hm⟩
    rcases hev with rfl | rfl <;> cases st <;> first | exact hst | cases hm
  · intro hst
    refine ⟨_, hst, ?_⟩
    rcases hev with rfl | rfl <;> rfl

theorem fi_eq_some {st : ClntState} :
    s.fi c = some st ↔ ∃ k, s.conns c = some k ∧ k.fi = some st := by
  unfold fi
  exact Option.bind_eq_some_iff

theorem Good.mem_of_fi (h : s.Good) {st : ClntState} {ρ : Role} (hst : s.fi c = some st)
    (hρ : st.role = some ρ) : c ∈ s.roster.members ρ := by
  obtain ⟨k, hk, hf⟩ := fi_eq_some.mp hst
  obtain ⟨ρ', hρ', hm⟩ := h.roster.state c k st hk hf
  rw [hρ] at hρ'
  exact Option.some.inj hρ' ▸ hm

theorem live_iff : s.ledger.live c = true ↔ s.fi c = some .connectedBankd := by
  simp [ledger]

theorem Good.live_mem (h : s.Good) (hl : s.ledger.live c = true) : c ∈ s.banks :=
  show c ∈ s.roster.members .bank from h.mem_of_fi (live_iff.mp hl) rfl

theorem Good.live_false (h : s.Good) (hc : c ∉ s.banks) : s.ledger.live c = false := by
  cases hl : s.ledger.live c with
  | false => rfl
  | true => exact absurd (h.live_mem hl) hc

/-! ### Steps that leave the ledger alone -/

theorem Calm.ledger (h : Calm s s') : s'.ledger = s.ledger := by
  have hbanks : s'.banks = s.banks := congrFun h.roster.members .bank
  have hid : ∀ k, (s'.conns k).map Conn.bankId = (s.conns k).map Conn.bankId := by
    intro k
    have := congrArg (Option.map Conn.bankId) (h.roster.conns k)
    simp only [Option.map_map] at this
    exact this
  have hfi : ∀ k, s'.fi k = s.fi k := by
    intro k
    have := congrArg (fun o => o.bind Conn.fi) (h.roster.conns k)
    simp only [Option.bind_map] at this
    exact this
  unfold Server.ledger book
  simp only [h.slotmaps, h.maps, h.eventfd, hbanks, hid, hfi]

theorem Calm.performs (hg : s.Good) (h : Calm s s') : Performs s .quiet s' :=
  ⟨hg.roster.sim h.roster, h.roster.le, trivial, h.ledger, h.sent⟩

/-- A step that changes one connection that is no bank, and sends no request. -/
structure Aside (s s' : Server) (c : ConnId) : Prop where
  slotmaps : s'.toSlotmaps = s.toSlotmaps
  maps : s'.maps = s.maps
  eventfd : s'.eventfd = s.eventfd
  banks : s'.banks = s.banks
  conns : ∀ k, k ≠ c → s'.conns k = s.conns k
  fi : s'.fi c ≠ some .connectedBankd
  sent : ∀ k, ∃ extra, s'.sent k = s.sent k ++ extra ∧ extra.filter Tx.isRequest = []

theorem Aside.ledger (h : Aside s s' c) (hg : s.Good) (hc : c ∉ s.banks) :
    s'.ledger = s.ledger := by
  have hid : ∀ k, (if k ∈ s.banks then (s'.conns k).map Conn.bankId else none) =
      if k ∈ s.banks then (s.conns k).map Conn.bankId else none := by
    intro k
    by_cases hk : k = c
    · subst hk
      rw [if_neg hc, if_neg hc]
    · rw [h.conns k hk]
  have hlive : ∀ k, decide (s'.fi k = some .connectedBankd) =
      decide (s.fi k = some .connectedBankd) := by
    intro k
    by_cases hk : k = c
    · subst hk
      rw [decide_eq_false h.fi]
      exact (hg.live_false hc).symm
    · unfold Server.fi
      rw [h.conns k hk]
  unfold Server.ledger book
  simp only [h.slotmaps, h.maps, h.eventfd, h.banks, hid, hlive]

theorem Aside.performs (h : Aside s s' c) (hg : s.Good) (hc : c ∉ s.banks)
    (hr : s'.roster.Inv) (hi : Roster.Le s.roster s'.roster) : Performs s .quiet s' :=
  ⟨hr, hi, trivial, h.ledger hg hc, h.sent⟩

/-! ### Loops over mappings -/

theorem pushOne_eq {x : SlotMapping} {m : MapId} (hx : s.heap m = some x)
    (req : SlotMapping → RsproPDU) (st : SlotMappingState) (dst : BankList) :
    s.pushOne c req st dst m =
      (s.clientConnSend c (req x) (some m)).slotmapStateChange m st (some (c, dst)) := by
  unfold pushOne
  rw [hx]

theorem pushLoop_spec (c : ConnId) (req : SlotMapping → RsproPDU) (st : SlotMappingState)
    (dst : BankList) (hst : st = dst.state) (hreq : ∀ x st, req { x with state := st } = req x) :
    ∀ (ms : List MapId) (s : Server), (∀ m ∈ ms, ∃ x, s.heap m = some x) →
      (ms.foldl (fun s m => pushOne s c req st dst m) s).book = s.book.moveAll c dst ms ∧
      (ms.foldl (fun s m => pushOne s c req st dst m) s).roster = s.roster ∧
      (ms.foldl (fun s m => pushOne s c req st dst m) s).eventfd = s.eventfd ∧
      (ms.foldl (fun s m => pushOne s c req st dst m) s).sent =
        Function.update s.sent c
          (s.sent c ++ ms.filterMap fun m => (s.heap m).map fun x => ⟨req x, some m⟩)
  | [], s, _ => by simp
  | m :: ms, s, h => by
      obtain ⟨x, hx⟩ := h m List.mem_cons_self
      have hheap : ∀ a, (s.pushOne c req st dst m).heap a =
          (s.book.stateChange m st (some (c, dst))).heap a := by
        rw [pushOne_eq hx]
        exact fun _ => rfl
      have htx : ∀ a, ((s.pushOne c req st dst m).heap a).map
          (fun x => (⟨req x, some a⟩ : Tx)) = (s.heap a).map fun x => ⟨req x, some a⟩ := by
        intro a
        rw [hheap]
        by_cases e : a = m
        · subst e
          rw [Book.stateChange_heap_self, Option.map_map]
          exact congrArg (fun f => (s.heap a).map f) (funext fun y => by simp [hreq])
        · rw [Book.stateChange_heap_of_ne e]
          rfl
      have halloc : ∀ a ∈ ms, ∃ y, (s.pushOne c req st dst m).heap a = some y := by
        intro a ha
        obtain ⟨y, hy⟩ := h a (List.mem_cons_of_mem _ ha)
        rw [hheap]
        by_cases e : a = m
        · subst e
          exact ⟨_, by rw [Book.stateChange_heap_self]; exact congrArg _ hy⟩
        · exact ⟨y, by rw [Book.stateChange_heap_of_ne e]; exact hy⟩
      obtain ⟨h₁, h₂, h₃, h₄⟩ := pushLoop_spec c req st dst hst hreq ms _ halloc
      simp only [htx] at h₄
      rw [pushOne_eq hx] at h₁ h₂ h₃ h₄
      simp only [List.foldl_cons]
      rw [pushOne_eq hx]
      refine ⟨h₁.trans ?_, h₂, h₃, h₄.trans ?_⟩
      · rw [Book.moveAll_cons, ← hst]
        rfl
      · rw [List.filterMap_cons_some (by rw [hx]; rfl)]
        simp [slotmapStateChange, clientConnSend]

theorem push_neat (h : s.book.Neat) (c : ConnId) :
    (s.push c).book = s.book.push c ∧ (s.push c).roster = s.roster ∧
      (s.push c).eventfd = s.eventfd ∧
      (s.push c).sent = Function.update s.sent c (s.sent c ++ s.book.pushTxs c) := by
  obtain ⟨b₁, r₁, e₁, t₁⟩ := pushLoop_spec c slotmap2CreateMappingReq
    .unacknowledged .mapsUnack rfl (fun _ _ => rfl) (s.maps c .mapsNew) s
    fun m hm => h.heap_of_mem hm
  unfold push
  simp only
  generalize (s.maps c .mapsNew).foldl (fun s m => pushOne s c slotmap2CreateMappingReq
    .unacknowledged .mapsUnack m) s = t at b₁ r₁ e₁ t₁ ⊢
  have hinv : t.book.Neat := by
    rw [b₁]
    exact Book.Neat.moveAll _ _ h fun m hm => ⟨_, hm⟩
  have hslots : ∀ m, t.book.slotsOf m = s.book.slotsOf m := by
    intro m
    rw [b₁, Book.slotsOf_moveAll]
  have hdel : t.book.maps c .mapsDelreq = s.book.maps c .mapsDelreq := by
    rw [b₁]
    change (s.book.moveAll c .mapsUnack (s.book.maps c .mapsNew)).maps c .mapsDelreq = _
    rw [Book.moveAll_maps c .mapsUnack _ _ (h.nodup c .mapsNew), if_neg (by simp),
      List.append_nil]
    exact ListLib.filter_not_mem_of_disjoint (h.not_mem_other (by decide))
  obtain ⟨b₂, r₂, e₂, t₂⟩ := pushLoop_spec c slotmap2RemoveMappingReq
    .deleting .mapsDeleting rfl (fun _ _ => rfl) (t.maps c .mapsDelreq) t
    fun m hm => hinv.heap_of_mem hm
  refine ⟨b₂.trans ?_, r₂.trans r₁, e₂.trans e₁, t₂.trans ?_⟩
  · change t.book.moveAll c .mapsDeleting (t.book.maps c .mapsDelreq) = _
    rw [b₁]
    rfl
  · rw [t₁, Function.update_idem, Function.update_self, List.append_assoc]
    refine congrArg (fun l => Function.update s.sent c (s.sent c ++ (_ ++ l))) ?_
    change (t.book.maps c .mapsDelreq).filterMap t.book.removeTx = _
    have htx : t.book.removeTx = s.book.removeTx := funext fun m => Book.removeTx_congr (hslots m)
    rw [hdel, htx]

theorem push_spec (h : s.book.Inv) (c : ConnId) :
    (s.push c).book = s.book.push c ∧ (s.push c).roster = s.roster ∧
      (s.push c).eventfd = s.eventfd ∧
      (s.push c).sent = Function.update s.sent c (s.sent c ++ s.book.pushTxs c) :=
  push_neat h.neat c

theorem push_performs (hg : s.Good) (hl : s.ledger.live c = true) :
    Performs s (.push c) (s.push c) := by
  obtain ⟨hb, hr, he, hs⟩ := push_spec hg.book c
  refine ⟨by rw [hr]; exact hg.roster, by rw [hr]; exact Roster.Le.refl _, hl, ?_, fun k => ?_⟩
  · have hlive : (s.push c).ledger.live = s.ledger.live := by
      funext k
      show decide ((s.push c).fi k = _) = decide (s.fi k = _)
      have : (s.push c).fi = s.fi := congrArg (fun r : Roster => fun k => (r.conns k).bind Conn.fi) hr
      rw [this]
    show Ledger.mk (s.push c).book (s.push c).ledger.live (s.push c).eventfd = _
    rw [hb, hlive, he]
    rfl
  · rw [hs]
    by_cases hk : k = c
    · subst hk
      refine ⟨s.book.pushTxs k, by rw [Function.update_self], ?_⟩
      rw [Book.filter_pushTxs]
      exact (if_pos rfl).symm
    · refine ⟨[], by rw [Function.update_of_ne hk, List.append_nil], ?_⟩
      exact (if_neg hk).symm

theorem onenterLoop_spec (c : ConnId) :
    ∀ (ms : List MapId) (s : Server), c ∈ s.banks →
      (ms.foldl (fun (s : Server) m =>
        if ((s.heap m).map fun x => x.bank.bankId) = (s.conns c).map Conn.bankId then
          s.slotmapStateChange m .new (some (c, .mapsNew)) else s) s).book = s.book.linkAll c ms
  | [], _, _ => rfl
  | m :: ms, s, hc => by
      have hbank : s.book.bankOf c = (s.conns c).map Conn.bankId := if_pos hc
      simp only [List.foldl_cons, Book.linkAll]
      rw [hbank]
      by_cases h : ((s.heap m).map fun x => x.bank.bankId) = (s.conns c).map Conn.bankId
      · rw [if_pos h, onenterLoop_spec c ms _ (by exact hc), if_pos (by exact h)]
        rfl
      · rw [if_neg h, onenterLoop_spec c ms s hc, if_neg (by exact h)]
        rfl

theorem onenter_fixed {γ : Type} (p : Server → γ)
    (hp : ∀ s m st dst, p (slotmapStateChange s m st dst) = p s) (s : Server) (c : ConnId) :
    p (s.clntStConnectedBankdOnenter c) = p s := by
  refine ListLib.foldl_fixed p _ (fun s m => ?_) _ _
  split_ifs
  · exact hp s m _ _
  · rfl

theorem unlinkAllSlotmaps_book (s : Server) (c : ConnId) :
    (s.unlinkAllSlotmaps c).book = s.book.unlinkAll c := by
  have hnew : ∀ (ms : List MapId) (s : Server),
      (ms.foldl (fun (s : Server) m => s.slotmapStateChange m .new none) s).book =
        s.book.unlinkNew ms := fun ms s => (List.foldl_hom Server.book fun _ _ => rfl).symm
  have hdel : ∀ (ms : List MapId) (s : Server),
      (ms.foldl (fun (s : Server) m => s.slotmapFree m) s).book = s.book.freeAll ms :=
    fun ms s => (List.foldl_hom Server.book fun _ _ => rfl).symm
  unfold unlinkAllSlotmaps Book.unlinkAll
  simp only
  rw [hdel, hdel, hnew, hnew, hnew]
  have hmaps : ∀ (t : Server) l, t.maps c l = t.book.maps c l := fun _ _ => rfl
  simp only [hmaps, hdel, hnew]

theorem unlinkAllSlotmaps_fixed {γ : Type} (p : Server → γ)
    (hst : ∀ s m st dst, p (slotmapStateChange s m st dst) = p s)
    (hdel : ∀ s m, p (slotmapFree s m) = p s) (s : Server) (c : ConnId) :
    p (s.unlinkAllSlotmaps c) = p s := by
  unfold unlinkAllSlotmaps
  simp only
  rw [ListLib.foldl_fixed p _ (fun s m => hdel s m), ListLib.foldl_fixed p _ (fun s m => hdel s m),
    ListLib.foldl_fixed p _ (fun s m => hst s m _ _), ListLib.foldl_fixed p _ (fun s m => hst s m _ _),
    ListLib.foldl_fixed p _ (fun s m => hst s m _ _)]

/-! ### The eventfd callback -/

/-- What `event_fd_cb()` does at one bank. -/
def fdStep (s : Server) (c : ConnId) : Server :=
  if (s.maps c .mapsNew).isEmpty || (s.maps c .mapsDelreq).isEmpty then s.dispatchPush c else s

theorem fdStep_eq (s : Server) (c : ConnId) :
    s.fdStep c = if s.pushable c then s.push c else s := by
  unfold fdStep pushable dispatchPush
  cases s.accepts c .push <;>
    cases (s.maps c .mapsNew).isEmpty || (s.maps c .mapsDelreq).isEmpty <;> simp

theorem pushable_push (h : s.book.Inv) {k : ConnId} (hk : k ≠ c) :
    (s.push c).pushable k = s.pushable k := by
  obtain ⟨hb, hr, _, _⟩ := push_spec h c
  have hmaps : ∀ l, (s.push c).maps k l = s.maps k l := by
    intro l
    have : (s.push c).book.maps k l = s.book.maps k l := by
      rw [hb, h.push_maps, if_neg hk]
    exact this
  have hfi : (s.push c).fi k = s.fi k := congrArg (fun r : Roster => (r.conns k).bind Conn.fi) hr
  unfold pushable accepts
  rw [hmaps, hmaps, hfi]

theorem fdLoop_spec :
    ∀ (cs : List ConnId) (s : Server), s.book.Inv → cs.Nodup →
      (cs.foldl fdStep s).book = s.book.pushAll (cs.filter s.pushable) ∧
      (cs.foldl fdStep s).roster = s.roster ∧ (cs.foldl fdStep s).eventfd = s.eventfd ∧
      ∀ k, (cs.foldl fdStep s).sent k =
        s.sent k ++ (if k ∈ cs.filter s.pushable then s.book.pushTxs k else [])
  | [], s, _, _ => by simp [Book.pushAll]
  | c :: cs, s, h, hnd => by
      obtain ⟨hc, hnd⟩ := List.nodup_cons.mp hnd
      simp only [List.foldl_cons, fdStep_eq s c]
      by_cases hp : s.pushable c = true
      · obtain ⟨hb, hr, he, hs⟩ := push_spec h c
        have hinv : (s.push c).book.Inv := by rw [hb]; exact h.push c
        obtain ⟨b₁, r₁, e₁, t₁⟩ := fdLoop_spec cs (s.push c) hinv hnd
        have hfil : cs.filter (s.push c).pushable = cs.filter s.pushable :=
          List.filter_congr fun k hk => pushable_push h fun e => hc (e ▸ hk)
        rw [if_pos hp, List.filter_cons_of_pos hp]
        rw [hfil] at b₁ t₁
        refine ⟨by rw [b₁, hb]; rfl, r₁.trans hr, e₁.trans he, fun k => (t₁ k).trans ?_⟩
        by_cases hk : k = c
        · have hnot : k ∉ cs.filter s.pushable := fun hm => hc (hk ▸ List.mem_of_mem_filter hm)
          rw [if_neg hnot, hs, hk, Function.update_self, List.append_nil,
            if_pos List.mem_cons_self]
        · have htx : (s.push c).book.pushTxs k = s.book.pushTxs k := by
            rw [hb]
            exact Book.pushTxs_congr (fun l => by rw [h.push_maps, if_neg hk])
              fun m => Book.slotsOf_push c m
          rw [hs, Function.update_of_ne hk, htx]
          simp only [List.mem_cons, hk, false_or]
      · rw [if_neg hp, List.filter_cons_of_neg hp]
        exact fdLoop_spec cs s h hnd

theorem ledger_ext {t : Server} {g : Ledger} (hb : t.book = g.toBook)
    (hl : ∀ k, t.ledger.live k = g.live k) (hp : t.eventfd = g.pending) : t.ledger = g := by
  show Ledger.mk t.book t.ledger.live t.eventfd = g
  rw [hb, funext hl, hp]

theorem live_of_roster {t : Server} (hr : t.roster = s.roster) (k : ConnId) :
    t.ledger.live k = s.ledger.live k := by
  have : t.fi k = s.fi k := congrArg (fun r : Roster => (r.conns k).bind Conn.fi) hr
  show decide (t.fi k = _) = decide (s.fi k = _)
  rw [this]

theorem eventFd_performs (hg : s.Good) (hp : s.eventfd = true) :
    Performs s (s.event .eventFd) s.eventFdCb := by
  have heq : s.eventFdCb = s.banks.foldl fdStep { s with eventfd := false } := by
    unfold eventFdCb
    rw [if_pos hp]
    rfl
  obtain ⟨hb, hr, he, hs⟩ := fdLoop_spec s.banks { s with eventfd := false } hg.book
    (hg.roster.nodup .bank)
  rw [heq]
  have hr' : (s.banks.foldl fdStep { s with eventfd := false }).roster = s.roster := hr
  refine ⟨by rw [hr']; exact hg.roster, by rw [hr']; exact Roster.Le.refl _,
    ⟨hp, (hg.roster.nodup .bank).filter _, ?_⟩,
    ledger_ext hb (live_of_roster hr) he, ?_⟩
  · intro c
    rw [List.mem_filter, live_iff]
    simp only [pushable, Bool.and_eq_true, Bool.or_eq_true, List.isEmpty_iff,
      accepts_bankd (.inl rfl)]
    constructor
    · exact fun h => h.2
    · exact fun h => ⟨hg.live_mem (live_iff.mpr h.1), h⟩
  · intro k
    refine ⟨_, hs k, ?_⟩
    show List.filter _ (if k ∈ s.banks.filter s.pushable then s.book.pushTxs k else []) =
      if k ∈ s.banks.filter s.pushable then s.book.pushTxs k else []
    split_ifs
    · exact Book.filter_pushTxs _ _
    · rfl

/-! ### REST requests -/

theorem post_spec (s : Server) (bank : BankSlot) (client : ClientSlot) :
    (s.apiCbSlotmapsPost bank client).2.book =
        s.book.post bank client (s.bankdConnById bank.bankId) ∧
      (s.apiCbSlotmapsPost bank client).2.eventfd = (s.eventfd ||
        ((s.slotmapAdd bank client).isSome && (s.bankdConnById bank.bankId).isSome)) ∧
      (s.apiCbSlotmapsPost bank client).2.roster = s.roster ∧
      (s.apiCbSlotmapsPost bank client).2.sent = s.sent := by
  have hadd : s.book.slotmapAdd bank client = s.toSlotmaps.slotmapAdd bank client := rfl
  cases h : s.toSlotmaps.slotmapAdd bank client with
  | none => simp [apiCbSlotmapsPost, Book.post, h, hadd]
  | some r =>
      obtain ⟨m, sm⟩ := r
      -- the lookup of the bank does not depend on the slot maps
      have hlook : ({ s with toSlotmaps := sm }.slotmapStateChange m .new none).bankdConnById
          bank.bankId = s.bankdConnById bank.bankId := rfl
      cases hc : s.bankdConnById bank.bankId with
      | none =>
          simp only [apiCbSlotmapsPost, Book.post, h, hadd, hlook, hc]
          exact ⟨rfl, by simp [slotmapStateChange], rfl, rfl⟩
      | some c =>
          simp only [apiCbSlotmapsPost, Book.post, h, hadd, hlook, hc]
          exact ⟨rfl, by simp [slotmapStateChange, trigger], rfl, rfl⟩

theorem post_performs (hg : s.Good) (bank : BankSlot) (client : ClientSlot) :
    Performs s (s.event (.post bank client)) (s.apiCbSlotmapsPost bank client).2 := by
  obtain ⟨hb, he, hr, hs⟩ := post_spec s bank client
  refine ⟨by rw [hr]; exact hg.roster, by rw [hr]; exact Roster.Le.refl _,
    fun k => hg.bankdConnById_iff _ k, ledger_ext hb (live_of_roster hr) he, fun c => ⟨[], ?_, rfl⟩⟩
  rw [hs, List.append_nil]

theorem slotmapMarkDeleted_spec {m : MapId} (h : s.slotmapMarkDeleted m = .ok s') :
    s'.book = s.book.mark s.bankdConnById m ∧ s'.roster = s.roster ∧ s'.sent = s.sent := by
  unfold slotmapMarkDeleted at h
  cases hx : s.heap m with
  | none =>
      rw [hx] at h
      cases h
  | some x =>
      have hx' : s.book.heap m = some x := hx
      rw [hx] at h
      simp only at h
      cases hst : x.state with
      | new =>
          simp only [hst] at h
          obtain rfl := Except.ok.inj h
          exact ⟨(Book.mark_new hx' hst).symm, rfl, rfl⟩
      | active =>
          simp only [hst] at h
          cases hc : s.bankdConnById x.bank.bankId with
          | none =>
              simp only [hc] at h
              cases h
          | some c =>
              simp only [hc] at h
              obtain rfl := Except.ok.inj h
              exact ⟨(Book.mark_active hx' hst hc).symm, rfl, rfl⟩
      | unacknowledged =>
          simp only [hst] at h
          obtain rfl := Except.ok.inj h
          exact ⟨(Book.mark_other hx' (by simp [hst]) (by simp [hst])).symm, rfl, rfl⟩
      | deleteReq =>
          simp only [hst] at h
          obtain rfl := Except.ok.inj h
          exact ⟨(Book.mark_other hx' (by simp [hst]) (by simp [hst])).symm, rfl, rfl⟩
      | deleting =>
          simp only [hst] at h
          obtain rfl := Except.ok.inj h
          exact ⟨(Book.mark_other hx' (by simp [hst]) (by simp [hst])).symm, rfl, rfl⟩

theorem bankdConnById_of_roster {t : Server} (hr : t.roster = s.roster) :
    t.bankdConnById = s.bankdConnById := by
  have h₁ : t.conns = s.conns := congrArg Roster.conns hr
  have h₂ : t.banks = s.banks := congrArg (fun r : Roster => r.members .bank) hr
  funext i
  unfold bankdConnById
  rw [h₁, h₂]

theorem markAll_spec :
    ∀ (ms : List MapId) (s s' : Server), markAll ms s = .ok s' →
      s'.book = s.book.markAll s.bankdConnById ms ∧ s'.roster = s.roster ∧ s'.sent = s.sent
  | [], s, s', h => by
      obtain rfl := Except.ok.inj h
      exact ⟨rfl, rfl, rfl⟩
  | m :: ms, s, s', h => by
      cases hm : s.slotmapMarkDeleted m with
      | error e =>
          simp only [markAll, hm, bind, Except.bind] at h
          cases h
      | ok t =>
          simp only [markAll, hm, bind, Except.bind] at h
          obtain ⟨b₁, r₁, t₁⟩ := slotmapMarkDeleted_spec hm
          obtain ⟨b₂, r₂, t₂⟩ := markAll_spec ms t s' h
          refine ⟨?_, r₂.trans r₁, t₂.trans t₁⟩
          rw [b₂, b₁, bankdConnById_of_roster r₁]
          rfl

theorem marks_performs (hg : s.Good) {ms : List MapId} {t : Server} (h : markAll ms s = .ok t)
    (hnd : ms.Nodup) (hms : ∀ m ∈ ms, m ∈ s.mappings) :
    Performs s (.marks s.bankdConnById ms) t.trigger := by
  obtain ⟨hb, hr, ht⟩ := markAll_spec ms s t h
  refine ⟨?_, ?_, ⟨fun i k => hg.bankdConnById_iff i k, hnd, hms⟩, ?_, fun c => ⟨[], ?_, rfl⟩⟩
  · show t.roster.Inv
    rw [hr]
    exact hg.roster
  · show Roster.Le s.roster t.roster
    rw [hr]
    exact Roster.Le.refl _
  · exact ledger_ext (t := t.trigger) hb (fun k => live_of_roster (t := t) hr k) rfl
  · show t.sent c = _
    rw [ht, List.append_nil]

theorem del_marks {mapId : ℕ} (h : s.perform (.del mapId) = .ok s') :
    ∃ t, markAll (s.mapById mapId).toList s = .ok t ∧ s' = t.trigger := by
  simp only [perform, apiCbSlotmapsDel] at h
  cases hm : s.mapById mapId with
  | none =>
      simp only [hm, Except.map] at h
      exact ⟨s, rfl, (Except.ok.inj h).symm⟩
  | some m =>
      cases hd : s.slotmapMarkDeleted m with
      | error e =>
          simp only [hm, hd, bind, Except.bind, Except.map] at h
          cases h
      | ok t =>
          simp only [hm, hd, bind, Except.bind, Except.map] at h
          refine ⟨t, ?_, (Except.ok.inj h).symm⟩
          simp only [Option.toList_some, markAll, hd, bind, Except.bind]

theorem globalReset_marks (h : s.perform .globalReset = .ok s') :
    ∃ t, markAll s.mappings s = .ok t ∧ s' = t.trigger := by
  simp only [perform, apiCbGlobalResetPost] at h
  cases hm : markAll s.mappings s with
  | error e =>
      simp only [hm, bind, Except.bind, Except.map] at h
      cases h
  | ok t =>
      simp only [hm, bind, Except.bind, Except.map] at h
      exact ⟨t, rfl, (Except.ok.inj h).symm⟩

/-! ### Teardown -/

theorem modConn_conns_self (s : Server) (c : ConnId) (f : Conn → Conn) :
    (s.modConn c f).conns c = (s.conns c).map f := Function.update_self _ _ _

theorem modConn_conns_of_ne {k : ConnId} (hk : k ≠ c) (f : Conn → Conn) :
    (s.modConn c f).conns k = s.conns k := Function.update_of_ne hk _ _

/-- Socket and FSM instance of a connection are gone. -/
def detach (s : Server) (c : ConnId) : Server :=
  s.modConn c fun k => { k with peer := none, fi := none }

theorem modConn_modConn (s : Server) (c : ConnId) (f g : Conn → Conn) :
    (s.modConn c f).modConn c g = s.modConn c (g ∘ f) := by
  unfold modConn
  simp

/-- The socket was closed: the connection is detached, unlinked and freed, at any depth of the
recursion from three on. -/
theorem sockClosedCb_eq {k : Conn} (hk : s.conns c = some k) (hf : k.fi.isSome = true)
    (hp : k.peer.isSome = true) (n : ℕ) :
    sockClosedCb (n + 3) s c = ((s.detach c).unlinkAllSlotmaps c).connFree c := by
  have h₁ : (s.modConn c fun k => { k with peer := none }).conns c =
      some { k with peer := none } := by rw [modConn_conns_self, hk]; rfl
  have h₂ : ((s.modConn c fun k => { k with peer := none }).modConn c
      fun k => { k with fi := none }).conns c = some { k with peer := none, fi := none } := by
    rw [modConn_conns_self, h₁]; rfl
  simp only [sockClosedCb, hk, hf, hp, if_true, fsmInstTerm, rsproClientConnDestroy, h₂,
    Option.isSome_none, Bool.false_eq_true, if_false]
  rw [modConn_modConn]
  rfl

/-- The FSM was terminated with the socket open: the connection is detached and stays, since
`sock_closed_cb()` finds `conn->fi` already cleared. -/
theorem fsmInstTerm_eq {k : Conn} (hk : s.conns c = some k) (hp : k.peer.isSome = true) (n : ℕ) :
    fsmInstTerm (n + 3) s c = s.detach c := by
  have h₁ : (s.modConn c fun k => { k with fi := none }).conns c =
      some { k with fi := none } := by rw [modConn_conns_self, hk]; rfl
  have h₂ : ((s.modConn c fun k => { k with fi := none }).modConn c
      fun k => { k with peer := none }).conns c = some { k with fi := none, peer := none } := by
    rw [modConn_conns_self, h₁]; rfl
  simp only [fsmInstTerm, rsproClientConnDestroy, h₁, hp, if_true, sockClosedCb, h₂,
    Option.isSome_none, Bool.false_eq_true, if_false]
  rw [modConn_modConn]
  rfl

theorem fi_detach_self (s : Server) (c : ConnId) : (s.detach c).fi c = none := by
  unfold fi detach
  rw [modConn_conns_self]
  cases s.conns c <;> rfl

theorem fi_detach_of_ne {k : ConnId} (hk : k ≠ c) : (s.detach c).fi k = s.fi k := by
  unfold fi detach
  rw [modConn_conns_of_ne hk]

theorem book_detach (s : Server) (c : ConnId) : (s.detach c).book = s.book := by
  have : ∀ a, (if a ∈ s.banks then ((s.detach c).conns a).map Conn.bankId else none) =
      if a ∈ s.banks then (s.conns a).map Conn.bankId else none := by
    intro a
    by_cases e : a = c
    · subst e
      rw [detach, modConn_conns_self, Option.map_map]
      rfl
    · rw [detach, modConn_conns_of_ne e]
  show Book.mk s.toSlotmaps s.maps _ = Book.mk s.toSlotmaps s.maps _
  exact congrArg _ (funext this)

theorem book_connFree (s : Server) (c : ConnId) : (s.connFree c).book = s.book.setBank c none := by
  show Book.mk s.toSlotmaps s.maps _ = Book.mk s.toSlotmaps s.maps _
  refine congrArg _ (funext fun a => ?_)
  show (if a ∈ s.banks.filter (· ≠ c) then (Function.update s.conns c none a).map Conn.bankId
    else none) = Function.update s.book.bankOf c none a
  by_cases e : a = c
  · subst e
    simp
  · rw [Function.update_of_ne e, Function.update_of_ne e]
    show _ = if a ∈ s.banks then _ else _
    simp [e]

theorem roster_detach {k : Conn} (hk : s.conns c = some k) :
    (s.detach c).roster = s.roster.update c { k with peer := none, fi := none } := by
  show Roster.mk (Function.update s.conns c ((s.conns c).map _)) _ _ = _
  rw [hk]
  rfl

theorem Good.detach (hg : s.Good) {k : Conn} (hk : s.conns c = some k) : (s.detach c).Good := by
  refine ⟨?_, by rw [book_detach]; exact hg.book⟩
  rw [roster_detach hk]
  exact hg.roster.update hk (fun st h => by cases h) rfl fun _ => rfl

/-- The open connections are those with a running FSM. -/
theorem Good.open_iff (hg : s.Good) : s.isOpen c = true ↔
    ∃ k, s.conns c = some k ∧ k.fi.isSome = true ∧ k.peer.isSome = true := by
  unfold isOpen
  cases hk : s.conns c with
  | none => simp
  | some k =>
      have := hg.roster.paired c k hk
      simp only [Option.bind_some, Option.some.injEq, exists_eq_left', this, and_self]

theorem Good.live_of_open (hg : s.Good) (hc : c ∈ s.banks) (ho : s.isOpen c = true) :
    s.ledger.live c = true := by
  obtain ⟨k, hk, hf, _⟩ := hg.open_iff.mp ho
  obtain ⟨st, hst⟩ := Option.isSome_iff_exists.mp hf
  obtain ⟨ρ, hρ, hm⟩ := hg.roster.state c k st hk hst
  obtain rfl : ρ = .bank := hg.roster.oneRole c ρ .bank hm hc
  refine live_iff.mpr (fi_eq_some.mpr ⟨k, hk, ?_⟩)
  cases st <;> first | exact hst | cases hρ

theorem closed_spec (hg : s.Good) (ho : s.isOpen c = true) :
    (s.tcpDown c).book = s.book.drop c ∧ (s.tcpDown c).roster = s.roster.free c ∧
      (s.tcpDown c).eventfd = s.eventfd ∧ (s.tcpDown c).sent = s.sent := by
  obtain ⟨k, hk, hf, hp⟩ := hg.open_iff.mp ho
  rw [tcpDown, teardownDepth, sockClosedCb_eq hk hf hp 0]
  refine ⟨?_, ?_, ?_, ?_⟩
  · rw [book_connFree, unlinkAllSlotmaps_book, book_detach]
    rfl
  · have hr : ((s.detach c).unlinkAllSlotmaps c).roster = (s.detach c).roster :=
      unlinkAllSlotmaps_fixed roster (fun _ _ _ _ => rfl) (fun _ _ => rfl) _ _
    have hmk : ∀ t : Server, (t.connFree c).roster = t.roster.free c := by
      intro t
      show Roster.mk _ _ _ = Roster.mk _ _ _
      refine congrArg (fun m => Roster.mk _ m _) (funext fun ρ => ?_)
      cases ρ <;> rfl
    rw [hmk, hr, roster_detach hk]
    show Roster.mk _ _ _ = Roster.mk _ _ _
    rw [Roster.update, Function.update_idem]
  · exact unlinkAllSlotmaps_fixed eventfd (fun _ _ _ _ => rfl) (fun _ _ => rfl) (s.detach c) c
  · exact unlinkAllSlotmaps_fixed sent (fun _ _ _ _ => rfl) (fun _ _ => rfl) (s.detach c) c

theorem closed_performs (hg : s.Good) (ho : s.isOpen c = true) :
    Performs s (s.event (.closed c)) (s.tcpDown c) := by
  obtain ⟨hb, hr, he, hs⟩ := closed_spec hg ho
  have hlive : ∀ a, (s.tcpDown c).ledger.live a =
      Function.update s.ledger.live c false a := by
    intro a
    have hfi : (s.tcpDown c).fi a = (Function.update s.conns c none a).bind Conn.fi :=
      congrArg (fun r : Roster => (r.conns a).bind Conn.fi) hr
    show decide ((s.tcpDown c).fi a = _) = _
    rw [hfi]
    by_cases e : a = c
    · subst e
      simp
    · rw [Function.update_of_ne e, Function.update_of_ne e]
      rfl
  have hsent : ∀ k, ∃ extra, (s.tcpDown c).sent k = s.sent k ++ extra ∧
      extra.filter Tx.isRequest = [] := fun k => ⟨[], by rw [hs, List.append_nil], rfl⟩
  have hrost : (s.tcpDown c).roster.Inv := by rw [hr]; exact hg.roster.free c
  have hids : Roster.Le s.roster (s.tcpDown c).roster := by rw [hr]; exact Roster.Le.free _ c
  show Performs s (if c ∈ s.banks then .drop c else .quiet) _
  by_cases hc : c ∈ s.banks
  · rw [if_pos hc]
    exact ⟨hrost, hids, trivial, ledger_ext hb hlive he, hsent⟩
  · rw [if_neg hc]
    refine ⟨hrost, hids, trivial, ledger_ext (hb.trans ?_) (fun k => (hlive k).trans ?_) he, hsent⟩
    · have hnone : s.book.bankOf c = none := hg.bankOf_eq_none.mpr hc
      have hnil := hg.book.maps_eq_nil hnone
      have hunl : s.book.unlinkAll c = s.book := by
        simp [Book.unlinkAll, hnil, Book.unlinkNew, Book.freeAll]
      show (s.book.unlinkAll c).setBank c none = s.book
      rw [hunl]
      show Book.mk _ _ (Function.update s.book.bankOf c none) = _
      rw [← hnone, Function.update_eq_self]
    · by_cases e : k = c
      · rw [e, Function.update_self]
        exact (hg.live_false hc).symm
      · rw [Function.update_of_ne e]
        rfl

theorem term_performs (hg : s.Good) (ho : s.isOpen c = true) :
    Performs s (if c ∈ s.banks then .kill c else .quiet) (s.term c) := by
  obtain ⟨k, hk, hf, hp⟩ := hg.open_iff.mp ho
  rw [term, teardownDepth, fsmInstTerm_eq hk hp 0]
  have hlive : ∀ a, (s.detach c).ledger.live a = Function.update s.ledger.live c false a := by
    intro a
    show decide ((s.detach c).fi a = _) = _
    by_cases e : a = c
    · subst e
      rw [fi_detach_self]
      simp
    · rw [fi_detach_of_ne e, Function.update_of_ne e]
      rfl
  have hsent : ∀ k, ∃ extra, (s.detach c).sent k = s.sent k ++ extra ∧
      extra.filter Tx.isRequest = [] := fun k => ⟨[], by rw [List.append_nil]; rfl, rfl⟩
  have hids : Roster.Le s.roster (s.detach c).roster := by
    rw [roster_detach hk]
    exact Roster.Le.update hk _
  by_cases hc : c ∈ s.banks
  · rw [if_pos hc]
    exact ⟨(hg.detach hk).roster, hids, trivial, ledger_ext (book_detach s c) hlive rfl, hsent⟩
  · rw [if_neg hc]
    refine ⟨(hg.detach hk).roster, hids, trivial,
      ledger_ext (book_detach s c) (fun a => (hlive a).trans ?_) rfl, hsent⟩
    by_cases e : a = c
    · rw [e, Function.update_self]
      exact (hg.live_false hc).symm
    · rw [Function.update_of_ne e]
      rfl

/-! ### Accepted connections and received PDUs -/

theorem Performs.calm {ev : Event} {t : Server} (h : Performs s ev t) (hc : Calm t s') :
    Performs s ev s' := by
  refine ⟨h.roster.sim hc.roster, h.ids.trans hc.roster.le, h.valid, hc.ledger.trans h.ledger,
    fun k => ?_⟩
  obtain ⟨e, he, hr⟩ := h.sent k
  obtain ⟨e', he', hr'⟩ := hc.sent k
  exact ⟨e ++ e', by rw [he', he, List.append_assoc], by
    rw [List.filter_append, hr, hr', List.append_nil]⟩

theorem acceptCb_performs (hg : s.Good) (addr : Option UInt32) :
    Performs s .quiet (s.acceptCb addr) := by
  have hnone : s.conns s.nextConn = none := by
    cases hc : s.conns s.nextConn with
    | none => rfl
    | some k => exact absurd (hg.roster.fresh _ k hc) (Nat.lt_irrefl _)
  have hoff := hg.roster.not_listed hnone
  have hbank : s.nextConn ∉ s.banks := hoff .bank
  have haside : Aside s (s.acceptCb addr) s.nextConn := by
    refine ⟨rfl, ?_, rfl, rfl, fun k hk => Function.update_of_ne hk _ _, ?_,
      fun k => ⟨[], (List.append_nil _).symm, rfl⟩⟩
    · show Function.update s.maps s.nextConn (fun _ => []) = s.maps
      have : s.maps s.nextConn = fun _ => [] :=
        funext fun l => hg.book.maps_eq_nil (hg.bankOf_eq_none.mpr hbank) l
      rw [← this, Function.update_eq_self]
    · unfold fi acceptCb
      simp [freshConn]
  have hr : (s.acceptCb addr).roster = s.roster.put s.nextConn (freshConn addr) .connection := by
    show Roster.mk _ _ _ = Roster.mk _ _ _
    congr 1
    · funext ρ
      have hf : (s.roster.members ρ).filter (· ≠ s.nextConn) = s.roster.members ρ :=
        ListLib.filter_ne_of_not_mem (hoff ρ)
      rw [hf]
      cases ρ
      · rfl
      · exact (List.append_nil _).symm
      · exact (List.append_nil _).symm
    · exact (Nat.max_eq_right (Nat.le_succ s.nextConn)).symm
  refine haside.performs hg hbank ?_ (hr ▸ Roster.Le.put (.inr (Nat.le_refl _)) _ _)
  rw [hr]
  exact hg.roster.put s.nextConn (by rintro st ⟨⟩; rfl) rfl (by rintro ⟨⟩)

theorem Good.established (hg : s.Good) (h : s.fi c = some .established) :
    ∃ k, s.conns c = some k ∧ k.fi = some .established ∧ k.peer.isSome = true ∧
      c ∈ s.connections ∧ c ∉ s.clients ∧ c ∉ s.banks ∧ s.isOpen c = true := by
  obtain ⟨k, hk, hf⟩ := fi_eq_some.mp h
  have hm : c ∈ s.roster.members .connection := hg.mem_of_fi h rfl
  have hp : k.peer.isSome = true := by
    rw [← hg.roster.paired c k hk, hf]
    rfl
  refine ⟨k, hk, hf, hp, hm, fun h' => ?_, fun h' => ?_, ?_⟩
  · cases hg.roster.oneRole c .connection .client hm h'
  · cases hg.roster.oneRole c .connection .bank hm h'
  · exact hg.open_iff.mpr ⟨k, hk, by rw [hf]; rfl, hp⟩

theorem reject_performs (hg : s.Good) (h : s.fi c = some .established) {f : Conn → Conn}
    (hf : ∀ k, (f k).peer = k.peer) {prev : ConnId} {res : RsproPDU}
    (hres : Tx.isRequest ⟨res, none⟩ = false)
    (hr : (s.modConn c f).reject c prev res = .ok s') : Performs s .quiet s' := by
  obtain ⟨k, hk, hfi, hp, hm, hncl, hnb, _⟩ := hg.established h
  unfold reject at hr
  cases hpeer : ((s.modConn c f).conns prev).bind Conn.peer with
  | none =>
      simp only [hpeer] at hr
      cases hr
  | some p =>
      simp only [hpeer] at hr
      obtain rfl := Except.ok.inj hr
      have hc : (s.modConn c f).conns c = some (f k) := by rw [modConn_conns_self, hk]; rfl
      have hconns : (((s.modConn c f).clientConnSend c res none).setFi c .rejected).conns =
          Function.update s.conns c (some { f k with fi := some .rejected }) := by
        show Function.update (Function.update s.conns c _) c ((Function.update s.conns c _ c).map _) = _
        rw [Function.update_idem, Function.update_self, hk]
        rfl
      have haside : Aside s (((s.modConn c f).clientConnSend c res none).setFi c .rejected) c := by
        refine ⟨rfl, rfl, rfl, rfl, fun a ha => ?_, ?_, fun a => ?_⟩
        · rw [hconns, Function.update_of_ne ha]
        · unfold fi
          rw [hconns, Function.update_self]
          simp
        · obtain ⟨e, he, hq⟩ := (Calm.send (s.modConn c f) c hres).sent a
          exact ⟨e, he, hq⟩
      have hrost : (((s.modConn c f).clientConnSend c res none).setFi c .rejected).roster =
          s.roster.update c { f k with fi := some .rejected } := by
        show Roster.mk _ _ _ = Roster.mk _ _ _
        rw [hconns]
        rfl
      refine haside.performs hg hnb ?_ (hrost ▸ Roster.Le.update hk _)
      rw [hrost]
      refine hg.roster.update hk ?_ ?_ fun hcl => absurd hcl hncl
      · intro st hst
        obtain rfl := Option.some.inj hst
        exact ⟨.connection, rfl, hm⟩
      · show true = (f k).peer.isSome
        rw [hf, hp]

theorem onenter_calm {t : Server} (h : t.clntStConnectedClientOnenter c = .ok s') : Calm t s' := by
  unfold clntStConnectedClientOnenter at h
  cases hk : t.conns c with
  | none =>
      simp only [hk] at h
      obtain rfl := Except.ok.inj h
      exact Calm.refl _
  | some k =>
      simp only [hk] at h
      cases hm : t.slotmapByClient k.clientSlot with
      | none =>
          simp only [hm] at h
          obtain rfl := Except.ok.inj h
          exact Calm.refl _
      | some m =>
          simp only [hm] at h
          cases hx : t.heap m with
          | none =>
              simp only [hx] at h
              cases h
          | some x =>
              simp only [hx] at h
              exact updateClientForSlotmap_calm h

theorem put_roster (hg : s.Good) {k k' : Conn} (hk : s.conns c = some k) {t : Server} {ρ : Role}
    (hconns : t.conns = Function.update s.conns c (some k'))
    (hm : ∀ ρ', t.roster.members ρ' = (s.roster.members ρ').filter (· ≠ c) ++
      (if ρ' = ρ then [c] else []))
    (hn : t.nextConn = s.nextConn) : t.roster = s.roster.put c k' ρ := by
  show Roster.mk t.conns t.roster.members t.nextConn = Roster.mk _ _ _
  rw [hconns, funext hm, hn]
  congr 1
  exact (Nat.max_eq_left (hg.roster.fresh c k hk)).symm

/-- A client of a new identity when `clnt_st_connected_client_onenter()` is called. -/
def joined (s : Server) (c : ConnId) (slot : ClientSlot) : Server :=
  let t := (s.modConn c fun k => { k with clientSlot := slot }).connListDel c
  ({ t with clients := t.clients ++ [c] }.clientConnSend c
    (.connectClientRes .remsimServer .ok) none).setFi c .connectedClient

theorem acceptClient_eq (s : Server) (c : ConnId) (slot : ClientSlot) :
    (s.modConn c fun k => { k with clientSlot := slot }).acceptClient c =
      (s.joined c slot).clntStConnectedClientOnenter c := rfl

theorem joined_conns {k : Conn} (hk : s.conns c = some k) (slot : ClientSlot) :
    (s.joined c slot).conns = Function.update s.conns c
      (some { k with clientSlot := slot, fi := some .connectedClient }) := by
  show Function.update (Function.update s.conns c _) c ((Function.update s.conns c _ c).map _) = _
  rw [Function.update_idem, Function.update_self, hk]
  rfl

theorem joined_performs (hg : s.Good) (h : s.fi c = some .established) {slot : ClientSlot}
    (hfree : (s.modConn c fun k => { k with clientSlot := slot }).clientConnBySlot slot = none) :
    Performs s .quiet (s.joined c slot) := by
  obtain ⟨k, hk, hfi, hp, hm, hncl, hnb, _⟩ := hg.established h
  have hconns := joined_conns hk slot
  have haside : Aside s (s.joined c slot) c := by
    refine ⟨rfl, rfl, rfl, ListLib.filter_ne_of_not_mem hnb, fun a ha => ?_, ?_, fun a => ?_⟩
    · rw [hconns, Function.update_of_ne ha]
    · unfold fi
      rw [hconns, Function.update_self]
      simp
    · obtain ⟨e, he, hq⟩ := (@Calm.send s c (.connectClientRes .remsimServer .ok) none rfl).sent a
      exact ⟨e, he, hq⟩
  have hrost : (s.joined c slot).roster = s.roster.put c
      { k with clientSlot := slot, fi := some .connectedClient } .client := by
    refine put_roster hg hk hconns (fun ρ => ?_) rfl
    cases ρ
    · exact (List.append_nil _).symm
    · rfl
    · exact (List.append_nil _).symm
  refine haside.performs hg hnb ?_ (hrost ▸ Roster.Le.put (.inl (by simp [roster, hk])) _ _)
  rw [hrost]
  refine hg.roster.put c ?_ ?_ ?_
  · rintro st ⟨⟩
    rfl
  · show true = k.peer.isSome
    exact hp.symm
  · intro _ a ha hne q hq hslot
    have := List.find?_eq_none.mp hfree a ha
    rw [modConn_conns_of_ne hne] at this
    have hq' : s.conns a = some q := hq
    simp [hq'] at this
    exact this hslot

theorem acceptClient_performs (hg : s.Good) (h : s.fi c = some .established) {slot : ClientSlot}
    (hfree : (s.modConn c fun k => { k with clientSlot := slot }).clientConnBySlot slot = none)
    (hr : (s.modConn c fun k => { k with clientSlot := slot }).acceptClient c = .ok s') :
    Performs s .quiet s' := by
  rw [acceptClient_eq] at hr
  exact (joined_performs hg h hfree).calm (onenter_calm hr)

theorem clientConn_performs (hg : s.Good) (h : s.fi c = some .established)
    {identity : ComponentType} {clientSlot : Option ClientSlotT}
    (hr : s.establishedClientConn c identity clientSlot = .ok s') : Performs s .quiet s' := by
  obtain ⟨k, hk, hfi, hp, hm, hncl, hnb, ho⟩ := hg.established h
  have hterm : Performs s .quiet (s.term c) := by
    have := term_performs hg ho
    rwa [if_neg hnb] at this
  unfold establishedClientConn at hr
  split_ifs at hr with hid
  · obtain rfl := Except.ok.inj hr
    exact hterm
  · cases hcs : clientSlot with
    | none =>
        simp only [hcs] at hr
        obtain rfl := Except.ok.inj hr
        exact hterm
    | some cs =>
        simp only [hcs] at hr
        cases hprev : (s.modConn c fun k =>
            { k with clientSlot := rspro2clientSlot cs }).clientConnBySlot
              (rspro2clientSlot cs) with
        | none =>
            simp only [hprev] at hr
            exact acceptClient_performs hg h hprev hr
        | some prev =>
            have hpm : prev ∈ s.clients := List.mem_of_find?_eq_some hprev
            have hne : prev ≠ c := fun e => hncl (e ▸ hpm)
            simp only [hprev, ne_eq, hne, not_false_eq_true, if_true] at hr
            exact reject_performs hg h (f := fun k => { k with clientSlot := rspro2clientSlot cs })
              (fun _ => rfl) rfl hr

/-- The connection of a bank as `clnt_st_established()` leaves it. -/
def reparented (s : Server) (c : ConnId) : Server :=
  let s := s.connListDel c
  let s := { s with banks := s.banks ++ [c] }
  (s.clientConnSend c (.connectBankRes .remsimServer .ok) none).setFi c .connectedBankd

theorem reparented_conns_self {s : Server} : (s.reparented c).conns c =
    (s.conns c).map fun k => { k with fi := some .connectedBankd } :=
  modConn_conns_self _ _ _

theorem reparented_conns_of_ne {s : Server} {k : ConnId} (h : k ≠ c) :
    (s.reparented c).conns k = s.conns k :=
  modConn_conns_of_ne h _

theorem isSome_reparented {s : Server} (k : ConnId) :
    ((s.reparented c).conns k).isSome = (s.conns k).isSome := by
  by_cases e : k = c
  · rw [e, reparented_conns_self, Option.isSome_map]
  · rw [reparented_conns_of_ne e]

theorem fi_reparented_self {s : Server} (h : (s.conns c).isSome = true) :
    (s.reparented c).fi c = some .connectedBankd := by
  obtain ⟨k, hk⟩ := Option.isSome_iff_exists.mp h
  unfold fi
  rw [reparented_conns_self, hk]
  rfl

theorem fi_reparented_of_ne {s : Server} {k : ConnId} (h : k ≠ c) :
    (s.reparented c).fi k = s.fi k := by
  unfold fi
  rw [reparented_conns_of_ne h]

theorem book_reparented {s : Server} {id : UInt16} (hc : (s.conns c).map Conn.bankId = some id) :
    (s.reparented c).book = s.book.setBank c (some id) := by
  show Book.mk s.toSlotmaps s.maps _ = Book.mk s.toSlotmaps s.maps _
  refine congrArg _ (funext fun k => ?_)
  show (if k ∈ s.banks.filter (· ≠ c) ++ [c] then ((s.reparented c).conns k).map Conn.bankId
    else none) = Function.update s.book.bankOf c (some id) k
  by_cases e : k = c
  · subst e
    rw [Function.update_self, reparented_conns_self, Option.map_map, if_pos (by simp)]
    exact hc
  · rw [Function.update_of_ne e, reparented_conns_of_ne e]
    show _ = if k ∈ s.banks then _ else _
    simp [e]

theorem reparented_spec (hg : s.Good) {k : Conn} (hk : s.conns c = some k) {id n : UInt16}
    {t : Server}
    (ht : t = (s.modConn c fun k => { k with bankId := id, numSlots := n }).reparented c) :
    t.conns = Function.update s.conns c
        (some { k with bankId := id, numSlots := n, fi := some .connectedBankd }) ∧
      t.book = s.book.setBank c (some id) ∧
      t.roster = s.roster.put c
        { k with bankId := id, numSlots := n, fi := some .connectedBankd } .bank := by
  subst ht
  have hconns : ((s.modConn c fun k => { k with bankId := id, numSlots := n }).reparented c).conns =
      Function.update s.conns c
        (some { k with bankId := id, numSlots := n, fi := some .connectedBankd }) := by
    show Function.update (Function.update s.conns c _) c
      ((Function.update s.conns c _ c).map _) = _
    rw [Function.update_idem, Function.update_self, hk]
    rfl
  refine ⟨hconns, ?_, put_roster hg hk hconns (fun ρ => ?_) rfl⟩
  · rw [book_reparented (show _ = some id by rw [modConn_conns_self, hk]; rfl)]
    show Book.mk s.toSlotmaps s.maps _ = Book.mk s.toSlotmaps s.maps _
    refine congrArg _ (funext fun a => ?_)
    by_cases e : a = c
    · rw [e, Function.update_self, Function.update_self]
    · rw [Function.update_of_ne e, Function.update_of_ne e]
      show (if a ∈ s.banks then _ else none) = if a ∈ s.banks then _ else none
      rw [modConn_conns_of_ne e]
  · cases ρ
    · exact (List.append_nil _).symm
    · exact (List.append_nil _).symm
    · exact rfl

theorem acceptBank_performs (hg : s.Good) (h : s.fi c = some .established) {id n : UInt16}
    (hfree : s.bankdConnById id = none) :
    Performs s (.connect c id)
      ((s.modConn c fun k => { k with bankId := id, numSlots := n }).acceptBank c) := by
  obtain ⟨k, hk, hfi, hp, hm, hncl, hnb, _⟩ := hg.established h
  have hnone : s.book.bankOf c = none := hg.bankOf_eq_none.mpr hnb
  have hid := hg.bankdConnById_none.mp hfree
  show Performs s _ (((Server.reparented _ c).clntStConnectedBankdOnenter c).dispatchPush c)
  generalize ht : Server.reparented _ c = t
  obtain ⟨hconns, hbook, hroster⟩ := reparented_spec hg hk ht.symm
  have hcb : c ∈ t.banks := by
    rw [← ht]
    exact List.mem_append_right _ List.mem_cons_self
  have hmap : t.mappings = s.book.mappings := congrArg (fun b : Book => b.mappings) hbook
  have hts : t.sent = Function.update s.sent c
      (s.sent c ++ [⟨.connectBankRes .remsimServer .ok, none⟩]) := by
    rw [← ht]
    rfl
  have hlink : (t.clntStConnectedBankdOnenter c).book =
      (s.book.setBank c (some id)).linkAll c s.book.mappings := by
    rw [← hbook, ← hmap]
    exact onenterLoop_spec c t.mappings t hcb
  have hlr : (t.clntStConnectedBankdOnenter c).roster = t.roster :=
    onenter_fixed roster (fun _ _ _ _ => rfl) t c
  have hle : (t.clntStConnectedBankdOnenter c).eventfd = s.eventfd := by
    refine (onenter_fixed eventfd (fun _ _ _ _ => rfl) t c).trans ?_
    rw [← ht]
    rfl
  have hls : (t.clntStConnectedBankdOnenter c).sent = t.sent :=
    onenter_fixed sent (fun _ _ _ _ => rfl) t c
  generalize t.clntStConnectedBankdOnenter c = u at hlink hlr hle hls ⊢
  have hui : u.book.Inv := by
    rw [hlink]
    exact hg.book.linked_inv hnone hid
  have hfu : u.fi c = some .connectedBankd := by
    have : u.conns c = t.conns c := congrArg (fun r : Roster => r.conns c) hlr
    unfold fi
    rw [this, hconns, Function.update_self]
    rfl
  have hpush : u.dispatchPush c = u.push c := by
    unfold dispatchPush
    rw [if_pos ((accepts_bankd (.inl rfl)).mpr hfu)]
  rw [hpush]
  obtain ⟨pb, pr, pe, ps⟩ := push_spec hui c
  refine ⟨?_, ?_, ⟨hnone, hid⟩, ledger_ext ?_ (fun a => ?_) ?_, fun a => ?_⟩
  · rw [pr, hlr, hroster]
    refine hg.roster.put c ?_ ?_ (by rintro ⟨⟩)
    · rintro st ⟨⟩
      rfl
    · show true = k.peer.isSome
      exact hp.symm
  · rw [pr, hlr, hroster]
    exact Roster.Le.put (.inl (by simp [roster, hk])) _ _
  · rw [pb, hlink]
    rfl
  · have : (u.push c).conns a = t.conns a :=
      congrArg (fun r : Roster => r.conns a) (pr.trans hlr)
    show decide ((u.push c).fi a = _) = Function.update s.ledger.live c true a
    unfold fi
    rw [this, hconns]
    by_cases e : a = c
    · subst e
      simp
    · rw [Function.update_of_ne e, Function.update_of_ne e]
      rfl
  · rw [pe, hle]
    rfl
  · rw [ps, hls, hts]
    by_cases e : a = c
    · subst e
      refine ⟨[⟨.connectBankRes .remsimServer .ok, none⟩] ++ u.book.pushTxs a, ?_, ?_⟩
      · rw [Function.update_self, Function.update_self, List.append_assoc]
      · show List.filter _ (_ :: u.book.pushTxs a) = if a = a then _ else _
        rw [List.filter_cons_of_neg (by decide), Book.filter_pushTxs, if_pos rfl, hlink,
          hg.book.pushTxs_linked hnone hid]
        rfl
    · exact ⟨[], by rw [Function.update_of_ne e, Function.update_of_ne e, List.append_nil],
        (if_neg e).symm⟩

theorem bankConn_performs (hg : s.Good) (h : s.fi c = some .established)
    {identity : ComponentType} {bankId n : ℤ}
    (hr : s.establishedBankConn c identity bankId n = .ok s') :
    Performs s (s.rxEvent c (.connectBankReq identity bankId n)) s' := by
  obtain ⟨k, hk, hfi, hp, hm, hncl, hnb, ho⟩ := hg.established h
  have hacc : s.accepts c .bankConn = true := (accepts_established (.inr rfl)).mpr h
  unfold establishedBankConn at hr
  unfold rxEvent
  split_ifs at hr with hid
  · obtain rfl := Except.ok.inj hr
    have hev : decide (identity = .remsimBankd) = false := decide_eq_false hid
    simp only [hacc, hev, Bool.true_and, Bool.false_and, Bool.false_eq_true, if_false]
    have := term_performs hg ho
    rwa [if_neg hnb] at this
  · have hev : decide (identity = .remsimBankd) = true := decide_eq_true (by simpa using hid)
    -- the lookup does not see the new identity, as the connection is no bank yet
    have hlook : (s.modConn c fun k => { k with bankId := .ofInt bankId, numSlots := .ofInt n
        }).bankdConnById (.ofInt bankId) = s.bankdConnById (.ofInt bankId) := by
      unfold bankdConnById
      refine ListLib.find?_congr fun a ha => ?_
      have hne : a ≠ c := fun e => hnb (e ▸ ha)
      rw [modConn_conns_of_ne hne]
    simp only [hlook] at hr
    cases hprev : s.bankdConnById (.ofInt bankId) with
    | none =>
        simp only [hprev] at hr
        obtain rfl := Except.ok.inj hr
        simp only [hacc, hev, hprev, Bool.true_and, Option.isNone_none, if_true]
        exact acceptBank_performs hg h hprev
    | some prev =>
        have hpm : prev ∈ s.banks := List.mem_of_find?_eq_some hprev
        have hne : prev ≠ c := fun e => hnb (e ▸ hpm)
        simp only [hprev, ne_eq, hne, not_false_eq_true, if_true] at hr
        simp only [hacc, hev, hprev, Bool.true_and, Option.isNone_some, Bool.false_eq_true, if_false]
        exact reject_performs hg h
          (f := fun k => { k with bankId := .ofInt bankId, numSlots := .ofInt n })
          (fun _ => rfl) rfl hr

theorem createMapRes_performs (hg : s.Good) (hl : s.ledger.live c = true)
    (hr : s.createMapRes c = .ok s') : Performs s (.ack c) s' := by
  unfold createMapRes at hr
  cases hm : s.maps c .mapsUnack with
  | nil =>
      simp only [hm] at hr
      cases hr
  | cons m ms =>
      simp only [hm] at hr
      have hack : s.book.ack c = s.book.stateChange m .active (some (c, .mapsActive)) := by
        have hm' : s.book.maps c .mapsUnack = m :: ms := hm
        simp only [Book.ack, hm']
      have hbase : Performs s (.ack c) (s.slotmapStateChange m .active (some (c, .mapsActive))) := by
        refine ⟨hg.roster, Roster.Le.refl _, ⟨hl, fun e => ?_⟩, ledger_ext hack.symm (fun _ => rfl) rfl,
          fun a => ⟨[], (List.append_nil _).symm, rfl⟩⟩
        rw [show s.ledger.maps c .mapsUnack = m :: ms from hm] at e
        cases e
      cases hx : (s.slotmapStateChange m .active (some (c, .mapsActive))).heap m with
      | none =>
          simp only [hx] at hr
          cases hr
      | some x =>
          simp only [hx] at hr
          exact hbase.calm (updateClientForSlotmap_calm hr)

theorem removeMapRes_performs (hg : s.Good) (hl : s.ledger.live c = true)
    (hr : s.removeMapRes c = .ok s') : Performs s (.unmap c) s' := by
  unfold removeMapRes at hr
  cases hm : s.maps c .mapsDeleting with
  | nil =>
      simp only [hm] at hr
      cases hr
  | cons m ms =>
      simp only [hm] at hr
      cases hx : s.heap m with
      | none =>
          simp only [hx] at hr
          cases hr
      | some x =>
          simp only [hx] at hr
          split_ifs at hr
          cases hu : s.updateClientForSlotmap x (some c) with
          | error e =>
              simp only [hu, bind, Except.bind] at hr
              cases hr
          | ok t =>
              simp only [hu, bind, Except.bind] at hr
              obtain rfl := Except.ok.inj hr
              have hc := updateClientForSlotmap_calm hu
              have hb : t.book = s.book := congrArg Ledger.toBook hc.ledger
              have hunmap : s.book.unmap c = s.book.free m := by
                have hm' : s.book.maps c .mapsDeleting = m :: ms := hm
                simp only [Book.unmap, hm']
              refine ⟨hg.roster.sim hc.roster, hc.roster.le, ⟨hl, fun e => ?_⟩,
                ledger_ext ?_ (fun a => ?_) ?_, hc.sent⟩
              · rw [show s.ledger.maps c .mapsDeleting = m :: ms from hm] at e
                cases e
              · show t.book.free m = s.book.unmap c
                rw [hb, hunmap]
              · show t.ledger.live a = s.ledger.live a
                rw [hc.ledger]
              · exact hc.eventfd

/-! ### The refinement -/

/-- No connection is ever in `WAIT_CONFIG_RES`. -/
theorem Good.accepts_configClRes (hg : s.Good) (c : ConnId) :
    ¬s.accepts c .configClRes = true := by
  intro ha
  obtain ⟨st, hst, hmask⟩ := accepts_eq.mp ha
  obtain ⟨k, hk, hf⟩ := fi_eq_some.mp hst
  obtain ⟨ρ, hρ, _⟩ := hg.roster.state c k st hk hf
  cases st <;> first | (cases hmask; done) | cases hρ

/-- Timers run on open connections that have not identified themselves. -/
theorem Good.timerRunning (hg : s.Good) (h : s.timerRunning c = true) :
    s.isOpen c = true ∧ c ∉ s.banks := by
  have hst : s.fi c = some .established ∨ s.fi c = some .rejected := by
    simpa [Server.timerRunning] using h
  have hm : c ∈ s.roster.members .connection := by
    rcases hst with hst | hst <;> exact hg.mem_of_fi hst rfl
  refine ⟨?_, fun hb => by cases hg.roster.oneRole c .connection .bank hm hb⟩
  obtain ⟨st, hst⟩ : ∃ st, s.fi c = some st := by
    rcases hst with hst | hst <;> exact ⟨_, hst⟩
  obtain ⟨k, hk, hf⟩ := fi_eq_some.mp hst
  refine hg.open_iff.mpr ⟨k, hk, by rw [hf]; rfl, ?_⟩
  rw [← hg.roster.paired c k hk, hf]
  rfl

theorem rx_performs (hg : s.Good) {pdu : RsproPDU} (hr : s.handleRxRspro c pdu = .ok s') :
    Performs s (s.rxEvent c pdu) s' := by
  have hquiet : Performs s .quiet s := (Calm.refl s).performs hg
  cases pdu with
  | connectClientReq identity clientSlot =>
      simp only [handleRxRspro] at hr
      split_ifs at hr with ha
      · exact clientConn_performs hg ((accepts_established (.inl rfl)).mp ha) hr
      · obtain rfl := Except.ok.inj hr
        exact hquiet
  | connectBankReq identity bankId n =>
      simp only [handleRxRspro] at hr
      split_ifs at hr with ha
      · exact bankConn_performs hg ((accepts_established (.inr rfl)).mp ha) hr
      · obtain rfl := Except.ok.inj hr
        simp only [rxEvent, ha, Bool.false_and, Bool.false_eq_true, if_false]
        exact hquiet
  | createMappingRes r =>
      simp only [handleRxRspro] at hr
      split_ifs at hr with ha
      · simp only [rxEvent, ha, if_true]
        exact createMapRes_performs hg (live_iff.mpr ((accepts_bankd (.inr (.inl rfl))).mp ha)) hr
      · obtain rfl := Except.ok.inj hr
        simp only [rxEvent, ha, Bool.false_eq_true, if_false]
        exact hquiet
  | removeMappingRes r =>
      simp only [handleRxRspro] at hr
      split_ifs at hr with ha
      · simp only [rxEvent, ha, if_true]
        exact removeMapRes_performs hg (live_iff.mpr ((accepts_bankd (.inr (.inr rfl))).mp ha)) hr
      · obtain rfl := Except.ok.inj hr
        simp only [rxEvent, ha, Bool.false_eq_true, if_false]
        exact hquiet
  | configClientIdRes r =>
      simp only [handleRxRspro] at hr
      split_ifs at hr with ha
      · exact absurd ha (hg.accepts_configClRes c)
      · obtain rfl := Except.ok.inj hr
        exact hquiet
  | _ =>
      obtain rfl := Except.ok.inj hr
      exact hquiet

/-- **Every step of the server performs its event.** -/
theorem step_performs (hg : s.Good) {op : Op} (h : lts.step s op s') :
    Performs s (s.event op) s' := by
  obtain ⟨hen, hp⟩ := lts_step.mp h
  cases op with
  | post bank client =>
      obtain rfl := Except.ok.inj hp
      exact post_performs hg bank client
  | del mapId =>
      obtain ⟨t, ht, rfl⟩ := del_marks hp
      have hnd : (s.mapById mapId).toList.Nodup := by
        cases s.mapById mapId with
        | none => exact List.nodup_nil
        | some m => exact List.nodup_singleton m
      refine marks_performs hg ht hnd fun m hm => ?_
      exact List.mem_of_find?_eq_some (Option.mem_toList.mp hm)
  | globalReset =>
      obtain ⟨t, ht, rfl⟩ := globalReset_marks hp
      exact marks_performs hg ht hg.book.wf.nodup fun _ hm => hm
  | eventFd =>
      obtain rfl := Except.ok.inj hp
      exact eventFd_performs hg hen
  | accept addr =>
      obtain rfl := Except.ok.inj hp
      exact acceptCb_performs hg addr
  | rx c pdu => exact rx_performs hg hp
  | push c =>
      obtain rfl := Except.ok.inj hp
      show Performs s (if s.accepts c .push then .push c else .quiet)
        (if s.accepts c .push then s.push c else s)
      split_ifs with ha
      · exact push_performs hg (live_iff.mpr ((accepts_bankd (.inl rfl)).mp ha))
      · exact (Calm.refl s).performs hg
  | closed c =>
      obtain rfl := Except.ok.inj hp
      exact closed_performs hg hen
  | kaTimeout c =>
      obtain rfl := Except.ok.inj hp
      exact term_performs hg hen
  | timeout c =>
      obtain rfl := Except.ok.inj hp
      obtain ⟨ho, hnb⟩ := hg.timerRunning hen
      have := term_performs hg ho
      rwa [if_neg hnb] at this

theorem Performs.good {ev : Event} (h : Performs s ev s') (hg : s.Good) : s'.Good :=
  ⟨h.roster, by
    have : s'.ledger.toBook.Inv := by
      rw [h.ledger]
      exact Ledger.inv_apply hg.book h.valid
    exact this⟩

theorem good_initial : initial.Good := by
  refine ⟨⟨?_, ?_, ?_, ?_, ?_, ?_, ?_⟩, ⟨Slotmaps.wf_empty, ?_, ?_, ?_, ?_, ?_⟩⟩
  · rintro c k ⟨⟩
  · intro c
    constructor
    · intro h
      cases h
    · rintro ⟨ρ, hρ⟩
      cases ρ <;> cases hρ
  · intro ρ
    cases ρ <;> exact List.nodup_nil
  · intro c ρ ρ' h
    cases ρ <;> cases h
  · rintro c k st ⟨⟩
  · rintro c k ⟨⟩
  · rintro c c' k k' ⟨⟩
  · rintro c l m ⟨⟩
  · exact fun _ _ => List.nodup_nil
  · intro c c' i h
    simp [book, initial] at h
  · rintro m x ⟨⟩
  · rintro m x c ⟨⟩

/-- **The connection lists and the book are in order in every reachable state.** -/
theorem reach_good {C : Server → Op → Prop} (h : lts.Reach C s) : s.Good :=
  h.invariant (fun s (hi : s = initial) => hi ▸ good_initial)
    fun _ _ _ hg _ hst => (step_performs hg hst).good hg

/-! ### Connections that are no banks -/

theorem Good.mem_banks (hg : s.Good) : c ∈ s.banks ↔ s.book.bankOf c ≠ none := by
  rw [Ne, hg.bankOf_eq_none, not_not]

theorem Performs.bankOf {ev : Event} (hp : Performs s ev s') :
    s'.book.bankOf = ev.banks s.book.bankOf :=
  (congrArg (fun g : Ledger => g.bankOf) hp.ledger).trans (Ledger.bankOf_apply s.ledger ev)

theorem Performs.requests_eq_nil (hg : s.Good) {ev : Event} (hp : Performs s ev s')
    (hc : c ∉ s.banks) (hc' : c ∉ s'.banks) : s.ledger.requests ev c = [] := by
  have hlive : s.ledger.live c = false := hg.live_false hc
  cases ev with
  | push c' =>
      refine if_neg fun e => ?_
      have hv : s.ledger.live c' = true := hp.valid
      rw [← e, hlive] at hv
      cases hv
  | eventFd cs =>
      refine if_neg fun hm => ?_
      have := ((hp.valid.2.2 c).mp hm).1
      rw [hlive] at this
      cases this
  | connect c' id =>
      refine if_neg fun e => ?_
      refine hc' ((hp.good hg).mem_banks.mpr ?_)
      rw [hp.bankOf, e, Event.banks, Function.update_self]
      exact Option.some_ne_none _
  | _ => rfl

theorem Performs.event_drop (hg : s.Good) {ev : Event} (hp : Performs s ev s') (hc : c ∈ s.banks)
    (hc' : c ∉ s'.banks) : ev = .drop c := by
  have hbc : s.book.bankOf c ≠ none := hg.mem_banks.mp hc
  have hbc' : s'.book.bankOf c = none := (hp.good hg).bankOf_eq_none.mpr hc'
  have hb := congrFun hp.bankOf c
  rw [hbc'] at hb
  cases ev with
  | drop c' =>
      by_cases e : c = c'
      · rw [e]
      · rw [Event.banks, Function.update_of_ne e] at hb
        exact absurd hb.symm hbc
  | connect c' id =>
      by_cases e : c = c'
      · rw [Event.banks, e, Function.update_self] at hb
        cases hb
      · rw [Event.banks, Function.update_of_ne e] at hb
        exact absurd hb.symm hbc
  | _ => exact absurd hb.symm hbc

theorem Performs.ne_connect (hg : s.Good) {ev : Event} (hp : Performs s ev s') (hc : c ∈ s.banks)
    (id : UInt16) : ev ≠ .connect c id := by
  intro e
  have hv := hp.valid
  rw [e] at hv
  exact hg.bankOf_eq_none.mp hv.1 hc

theorem Performs.ne_drop (hg : s.Good) {ev : Event} (hp : Performs s ev s') (hc : c ∈ s'.banks) :
    ev ≠ .drop c := by
  intro e
  refine (hp.good hg).mem_banks.mp hc ?_
  rw [hp.bankOf, e]
  exact Function.update_self _ _ _

theorem Performs.event_connect (hg : s.Good) {ev : Event} (hp : Performs s ev s')
    (hc : c ∉ s.banks) (hc' : c ∈ s'.banks) : ∃ id, ev = .connect c id := by
  have hnone := hg.bankOf_eq_none.mpr hc
  have hsome := (hp.good hg).mem_banks.mp hc'
  rw [hp.bankOf] at hsome
  cases ev with
  | connect k id =>
      by_cases e : c = k
      · exact ⟨id, by rw [e]⟩
      · rw [Event.banks, Function.update_of_ne e] at hsome
        exact absurd hnone hsome
  | drop k =>
      rw [Event.banks] at hsome
      by_cases e : c = k
      · rw [e, Function.update_self] at hsome
        exact absurd rfl hsome
      · rw [Function.update_of_ne e] at hsome
        exact absurd hnone hsome
  | _ => exact absurd hnone hsome

theorem drop_conns (hg : s.Good) {op : Op} (hst : lts.step s op s') (he : s.event op = .drop c) :
    s'.conns c = none := by
  obtain ⟨hen, hp⟩ := lts_step.mp hst
  obtain ⟨rfl, _⟩ := event_eq_drop he
  rw [← Except.ok.inj hp]
  have := (closed_spec hg hen).2.1
  exact (congrArg (fun r : Roster => r.conns c) this).trans (Function.update_self _ _ _)

/-- A connection that exists or is to come and is no bank after a step was so before, and the
step sends it no request. -/
theorem unasked_step (hg : s.Good) {op : Op} (hst : lts.step s op s') (hc' : c ∉ s'.banks)
    (hid : (s'.conns c).isSome = true ∨ s'.nextConn ≤ c) :
    c ∉ s.banks ∧ ((s.conns c).isSome = true ∨ s.nextConn ≤ c) ∧
      s.ledger.requests (s.event op) c = [] := by
  have hp := step_performs hg hst
  have hold : (s.conns c).isSome = true ∨ s.nextConn ≤ c := by
    rcases hid with hid | hid
    · exact hp.ids.conns c hid
    · exact .inr (Nat.le_trans hp.ids.nextConn hid)
  have hc : c ∉ s.banks := by
    intro hc
    have hev := hp.event_drop hg hc hc'
    obtain ⟨q, hq⟩ := hg.bank_conn hc
    rcases hid with hid | hid
    · rw [drop_conns hg hst hev] at hid
      cases hid
    · exact absurd (Nat.lt_of_lt_of_le (hg.roster.fresh c q hq) hp.ids.nextConn)
        (Nat.not_lt.mpr hid)
  exact ⟨hc, hold, hp.requests_eq_nil hg hc hc'⟩

/-! ### Steps that do not fault -/

theorem Good.markDeleted (hg : s.Good) {m : MapId} (hm : m ∈ s.mappings) :
    ∃ s', s.slotmapMarkDeleted m = .ok s' := by
  obtain ⟨x, hx⟩ := hg.book.wf.alloc m hm
  have hx' : s.heap m = some x := hx
  unfold slotmapMarkDeleted
  rw [hx']
  simp only
  cases hst : x.state with
  | active =>
      obtain ⟨c, hc, _⟩ := hg.book.conn_of_active hg.bankdConnById_iff hx hst
      simp [hc]
  | _ => exact ⟨_, rfl⟩

theorem Good.createMapRes_ok (hg : s.Good) (ho : s.isOpen c = true)
    (hm : s.maps c .mapsUnack ≠ []) : ∃ s', s.createMapRes c = .ok s' := by
  unfold createMapRes
  cases hms : s.maps c .mapsUnack with
  | nil => exact absurd hms hm
  | cons m ms =>
      have hin : m ∈ s.book.maps c .mapsUnack := by
        show m ∈ s.maps c .mapsUnack
        rw [hms]
        exact List.mem_cons_self
      obtain ⟨x, hx⟩ := hg.book.heap_of_mem hin
      have hx' : (s.slotmapStateChange m .active (some (c, .mapsActive))).heap m =
          some { x with state := .active } := by
        show Function.update s.heap m _ m = _
        rw [Function.update_self, show s.heap m = some x from hx]
        rfl
      simp only [hx']
      cases hu : (s.slotmapStateChange m .active (some (c, .mapsActive))).updateClientForSlotmap
          { x with state := .active } (some c) with
      | ok t => exact ⟨t, rfl⟩
      | error e =>
          obtain ⟨_, _, b, hb, hp⟩ := updateClientForSlotmap_error hu
          obtain rfl : c = b := Option.some.inj hb
          unfold isOpen at ho
          have hp' : (s.conns c).bind Conn.peer = none := hp
          rw [hp'] at ho
          cases ho

/-- The first mapping being deleted is in state `DELETING`, so a remove response on a connection
with such a mapping is processed. -/
theorem Good.removeMapRes_ok (hg : s.Good) (hm : s.maps c .mapsDeleting ≠ []) :
    ∃ s', s.removeMapRes c = .ok s' := by
  unfold removeMapRes
  cases hms : s.maps c .mapsDeleting with
  | nil => exact absurd hms hm
  | cons m ms =>
      have hin : m ∈ s.book.maps c .mapsDeleting := by
        show m ∈ s.maps c .mapsDeleting
        rw [hms]
        exact List.mem_cons_self
      obtain ⟨x, hx, hst, _⟩ := hg.book.linked c _ m hin
      have hx' : s.heap m = some x := hx
      have hst' : x.state = .deleting := hst
      simp only [hx', hst', if_true]
      cases hu : s.updateClientForSlotmap x (some c) with
      | ok t => exact ⟨_, rfl⟩
      | error e => exact absurd hst' (updateClientForSlotmap_error hu).2.1

theorem Good.removeMapRes_assertion (hg : s.Good) (c : ConnId) :
    s.removeMapRes c ≠ .error .assertion := by
  by_cases hm : s.maps c .mapsDeleting = []
  · unfold removeMapRes
    rw [hm]
    simp
  · obtain ⟨s', h⟩ := hg.removeMapRes_ok hm
    rw [h]
    simp

end Server
end Remsim
