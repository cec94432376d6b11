import Remsim.Refinement
import Remsim.Outstanding

/-! # The server and peers that answer its requests

`Net` adds to the server the number of responses of each kind it has received on each connection.
A create or remove response can only be received while a request of its kind is unanswered on that
connection; the `n`-th response of a kind answers the `n`-th request of that kind.  All other steps
of the server are unrestricted.

The server does not use the operation tag of RSPRO: a response is taken to be about the first
element of a list.  `Synced` is the invariant that makes this right, and `Bookkeeping` collects the
invariants of the slot-map bookkeeping in the terms of the server's own data. -/

namespace Remsim

/-- The server and the number of responses received on each connection. -/
structure Net where
  srv : Server
  answered : ConnId → ReqKind → ℕ

/-- The response to a kind of request. -/
def ReqKind.response : ReqKind → ResultCode → RsproPDU
  | .create, r => .createMappingRes r
  | .remove, r => .removeMappingRes r

/-- The step is the reception of a create or remove response. -/
def Server.Op.isResponse : Server.Op → Bool
  | .rx _ (.createMappingRes _) => true
  | .rx _ (.removeMappingRes _) => true
  | _ => false

namespace Net

variable (n : Net)

/-- The requests of a kind sent on a connection. -/
def requests (c : ConnId) (k : ReqKind) : List Tx := (n.srv.sent c).filter (Tx.isKind k)

/-- Those that have not been answered yet. -/
def unanswered (c : ConnId) (k : ReqKind) : List Tx := (n.requests c k).drop (n.answered c k)

/-- A step other than a response, or the response to the first unanswered request of a kind. -/
inductive Label where
  | op (o : Server.Op)
  | answer (c : ConnId) (k : ReqKind) (result : ResultCode)
deriving DecidableEq, Repr

/-- One more response of a kind was received. -/
def count (c : ConnId) (k : ReqKind) : ConnId → ReqKind → ℕ :=
  Function.update n.answered c (Function.update (n.answered c) k (n.answered c k + 1))

/-- The successor state, if the step can happen. -/
def next : Label → Option Net
  | .op o =>
      if o.isResponse then none
      else (n.srv.stepOp o).map fun s => { n with srv := s }
  | .answer c k r =>
      if (n.unanswered c k).isEmpty then none
      else (n.srv.stepOp (.rx c (k.response r))).map fun s => ⟨s, n.count c k⟩

/-- The state after start-up. -/
def initial : Net := ⟨Server.initial, fun _ _ => 0⟩

/-- The transition system of the server with answering peers. -/
def lts : Transition.Lts Net Label := Transition.ofFun (· = initial) next

variable {n} {n' : Net} {c : ConnId} {k : ReqKind}

theorem step_op {o : Server.Op} : lts.step n (.op o) n' ↔
    o.isResponse = false ∧ Server.lts.step n.srv o n'.srv ∧ n'.answered = n.answered := by
  show n.next (.op o) = some n' ↔ _ ∧ n.srv.stepOp o = some n'.srv ∧ _
  cases n'
  simp only [next]
  split_ifs with h
  · simp [h]
  · cases n.srv.stepOp o <;> simp [h, eq_comm]

theorem step_answer {r : ResultCode} : lts.step n (.answer c k r) n' ↔
    n.unanswered c k ≠ [] ∧ Server.lts.step n.srv (.rx c (k.response r)) n'.srv ∧
      n'.answered = n.count c k := by
  show n.next (.answer c k r) = some n' ↔ _ ∧ n.srv.stepOp (.rx c (k.response r)) = some n'.srv ∧ _
  cases n'
  simp only [next]
  split_ifs with h
  · simp [List.isEmpty_iff.mp h]
  · have h' : n.unanswered c k ≠ [] := fun e => h (by rw [e]; rfl)
    cases n.srv.stepOp (.rx c (k.response r)) <;> simp [h', eq_comm]

theorem reach_srv {C : Net → Label → Prop} (h : lts.Reach C n) :
    Server.lts.Reach Transition.Lts.Any n.srv := by
  refine h.map Net.srv (fun n (hn : n = initial) => by rw [hn]; rfl) ?_
  intro n l n' _ _ hst
  cases l with
  | op o => exact Transition.Lts.Steps.single trivial (step_op.mp hst).2.1
  | answer c k r => exact Transition.Lts.Steps.single trivial (step_answer.mp hst).2.1

/-! ### The invariant -/

/-- The unanswered requests of every bank are those its lists stand for; other connections,
present or future, have been sent no request. -/
structure Synced (n : Net) : Prop where
  good : n.srv.Good
  bound : ∀ c k, n.answered c k ≤ (n.requests c k).length
  bank : ∀ c ∈ n.srv.banks, ∀ k, n.unanswered c k = n.srv.book.pend c k
  idle : ∀ c, c ∉ n.srv.banks → (n.srv.conns c).isSome = true ∨ n.srv.nextConn ≤ c →
    ∀ k, n.requests c k = [] ∧ n.answered c k = 0

theorem requests_performs {ev : Event} (h : Server.Performs n.srv ev n'.srv) (c : ConnId)
    (k : ReqKind) : n'.requests c k =
      n.requests c k ++ (n.srv.ledger.requests ev c).filter (Tx.isKind k) := by
  obtain ⟨e, he, hr⟩ := h.sent c
  unfold requests
  rw [he, List.filter_append, Tx.filter_isKind k e, hr]

theorem count_self (n : Net) (c : ConnId) (k : ReqKind) :
    n.count c k c k = n.answered c k + 1 := by
  simp [count]

theorem count_of_ne {c' : ConnId} {k' : ReqKind} (h : (c', k') ≠ (c, k)) :
    n.count c k c' k' = n.answered c' k' := by
  unfold count
  by_cases hc : c' = c
  · subst hc
    rw [Function.update_self, Function.update_of_ne fun e => h (by rw [e])]
  · rw [Function.update_of_ne hc]

/-- The step lemma for the connections that are banks before and after. -/
theorem Synced.bank_step (h : n.Synced) {ev : Event} (hp : Server.Performs n.srv ev n'.srv)
    (hc : c ∈ n.srv.banks) (hun : n'.answered c k = n.answered c k)
    (hack : ev = .ack c → k = .remove) (hunm : ev = .unmap c → k = .create)
    (hcon : ∀ id, ev ≠ .connect c id) (hdrop : ev ≠ .drop c) :
    n'.unanswered c k = n'.srv.book.pend c k := by
  have hpend : n'.srv.book.pend c k =
      n.srv.book.pend c k ++ (n.srv.ledger.requests ev c).filter (Tx.isKind k) := by
    have := Ledger.pend_apply h.good.book hp.valid k hack hunm hcon hdrop
    rw [← hp.ledger] at this
    exact this
  have hb : n.answered c k ≤ (n.requests c k).length := h.bound c k
  rw [hpend, ← h.bank c hc k]
  unfold unanswered
  rw [requests_performs hp, hun, List.drop_append_of_le_length hb]

theorem Synced.idle_step (h : n.Synced) {o : Server.Op} (hst : Server.lts.step n.srv o n'.srv)
    (hun : ∀ k, n.requests c k = [] → n'.answered c k = n.answered c k) (hc' : c ∉ n'.srv.banks)
    (hid : (n'.srv.conns c).isSome = true ∨ n'.srv.nextConn ≤ c) (k : ReqKind) :
    n'.requests c k = [] ∧ n'.answered c k = 0 := by
  obtain ⟨hc, hold, hreq⟩ := Server.unasked_step h.good hst hc' hid
  obtain ⟨hr, ha⟩ := h.idle c hc hold k
  refine ⟨?_, (hun k hr).trans ha⟩
  rw [requests_performs (Server.step_performs h.good hst), hr, hreq]
  rfl

theorem Synced.connect_step (h : n.Synced) {id : UInt16}
    (hp : Server.Performs n.srv (.connect c id) n'.srv) (hun : n'.answered = n.answered) :
    n'.unanswered c k = n'.srv.book.pend c k := by
  obtain ⟨hnone, hid⟩ := hp.valid
  have hc : c ∉ n.srv.banks := h.good.bankOf_eq_none.mp hnone
  have hb : n'.srv.book.bankOf = Function.update n.srv.book.bankOf c (some id) := hp.bankOf
  have hcb : c ∈ n'.srv.banks := by
    refine (hp.good h.good).mem_banks.mpr ?_
    rw [hb, Function.update_self]
    exact Option.some_ne_none _
  obtain ⟨q, hq⟩ := (hp.good h.good).bank_conn hcb
  have hsome : (n'.srv.conns c).isSome = true := by rw [hq]; rfl
  obtain ⟨hr, ha⟩ := h.idle c hc (hp.ids.conns c hsome) k
  have hpend : n'.srv.book.pend c k =
      if k = .create then (n.srv.book.ofBank id).filterMap n.srv.book.createTx else [] := by
    rw [← h.good.book.pend_connect hnone hid k]
    exact congrArg (fun g : Ledger => g.toBook.pend c k) hp.ledger
  unfold unanswered
  rw [requests_performs hp, hr, hun, ha, hpend]
  show List.drop 0 ([] ++ List.filter _ (if c = c then _ else [])) = _
  rw [if_pos rfl]
  refine (Book.filter_filterMap_tx .create k _).trans ?_
  cases k <;> rfl

theorem event_response {o : Server.Op} (ho : o.isResponse = false) (c : ConnId) :
    n.srv.event o ≠ .ack c ∧ n.srv.event o ≠ .unmap c := by
  constructor
  · intro he
    obtain ⟨r, rfl⟩ := Server.event_eq_ack he
    cases ho
  · intro he
    obtain ⟨r, rfl⟩ := Server.event_eq_unmap he
    cases ho

theorem Synced.bound_step (h : n.Synced) {ev : Event} (hp : Server.Performs n.srv ev n'.srv)
    (hun : n'.answered c k = n.answered c k) : n'.answered c k ≤ (n'.requests c k).length := by
  rw [hun, requests_performs hp, List.length_append]
  exact Nat.le_add_right_of_le (h.bound c k)

theorem Synced.step_op (h : n.Synced) {o : Server.Op} (hst : lts.step n (.op o) n') :
    n'.Synced := by
  obtain ⟨ho, hst, hun⟩ := Net.step_op.mp hst
  have hp := Server.step_performs h.good hst
  refine ⟨hp.good h.good, fun c k => h.bound_step hp (by rw [hun]), fun c hc k => ?_,
    fun c hc' hid k => h.idle_step hst (fun k _ => by rw [hun]) hc' hid k⟩
  by_cases hc₀ : c ∈ n.srv.banks
  · exact h.bank_step hp hc₀ (by rw [hun]) (fun e => absurd e (event_response ho c).1)
      (fun e => absurd e (event_response ho c).2) (hp.ne_connect h.good hc₀) (hp.ne_drop h.good hc)
  · obtain ⟨id, he⟩ := hp.event_connect h.good hc₀ hc
    rw [he] at hp
    exact h.connect_step hp hun

/-- The connection of an unanswered request with an open socket is a running bank connection. -/
theorem Synced.live (h : n.Synced) (hun : n.unanswered c k ≠ []) (ho : n.srv.isOpen c = true) :
    c ∈ n.srv.banks ∧ n.srv.ledger.live c = true := by
  obtain ⟨q, hq, hf, _⟩ := h.good.open_iff.mp ho
  have hc : c ∈ n.srv.banks := by
    by_contra hc
    have := (h.idle c hc (.inl (by rw [hq]; rfl)) k).1
    exact hun (by rw [unanswered, this, List.drop_nil])
  exact ⟨hc, h.good.live_of_open hc ho⟩

/-- The event of a response. -/
def respEvent (c : ConnId) : ReqKind → Event
  | .create => .ack c
  | .remove => .unmap c

theorem Synced.event_answer (h : n.Synced) (hun : n.unanswered c k ≠ [])
    (ho : n.srv.isOpen c = true) (r : ResultCode) :
    n.srv.event (.rx c (k.response r)) = respEvent c k := by
  have hfi := Server.live_iff.mp (h.live hun ho).2
  cases k with
  | create =>
      have : n.srv.accepts c .createMapRes = true :=
        (Server.accepts_bankd (.inr (.inl rfl))).mpr hfi
      simp [Server.event, Server.rxEvent, ReqKind.response, respEvent, this]
  | remove =>
      have : n.srv.accepts c .removeMapRes = true :=
        (Server.accepts_bankd (.inr (.inr rfl))).mpr hfi
      simp [Server.event, Server.rxEvent, ReqKind.response, respEvent, this]

theorem Synced.pend_answer (h : n.Synced) (hp : Server.Performs n.srv (respEvent c k) n'.srv) :
    n'.srv.book.pend c k = (n.srv.book.pend c k).tail := by
  have hl : n'.srv.book = (n.srv.ledger.apply (respEvent c k)).toBook :=
    congrArg Ledger.toBook hp.ledger
  rw [hl]
  cases k with
  | create => exact h.good.book.pend_ack hp.valid.2
  | remove => exact h.good.book.pend_unmap hp.valid.2

theorem Synced.step_answer (h : n.Synced) {r : ResultCode}
    (hst : lts.step n (.answer c k r) n') : n'.Synced := by
  obtain ⟨hun, hst, han⟩ := Net.step_answer.mp hst
  have ho : n.srv.isOpen c = true := (Server.lts_step.mp hst).1
  obtain ⟨hc, hlive⟩ := h.live hun ho
  have hp := Server.step_performs h.good hst
  have hev := h.event_answer hun ho r
  rw [hev] at hp
  have hreq : ∀ c' k', n'.requests c' k' = n.requests c' k' := by
    intro c' k'
    rw [requests_performs hp]
    cases k <;> exact List.append_nil _
  have hpos : n.answered c k < (n.requests c k).length := by
    by_contra hlt
    exact hun (List.drop_of_length_le (Nat.not_lt.mp hlt))
  have hother : ∀ c' k', (c', k') ≠ (c, k) → n'.answered c' k' = n.answered c' k' := by
    intro c' k' hne
    rw [han, count_of_ne hne]
  refine ⟨hp.good h.good, fun c' k' => ?_, fun c' hc' k' => ?_, fun c' hc' hid k' => ?_⟩
  · by_cases e : (c', k') = (c, k)
    · obtain ⟨rfl, rfl⟩ := Prod.mk.inj e
      rw [han, count_self, hreq]
      exact hpos
    · rw [hother c' k' e, hreq]
      exact h.bound c' k'
  · by_cases e : (c', k') = (c, k)
    · obtain ⟨rfl, rfl⟩ := Prod.mk.inj e
      rw [h.pend_answer hp, ← h.bank c' hc k', unanswered, unanswered, hreq, han, count_self,
        List.tail_drop]
    · have hc₀ : c' ∈ n.srv.banks := by
        have hb := hp.bankOf
        refine h.good.mem_banks.mpr fun hn => ?_
        refine (hp.good h.good).mem_banks.mp hc' ((congrFun hb c').trans ?_)
        cases k <;> exact hn
      refine h.bank_step hp hc₀ (hother c' k' e) ?_ ?_ ?_ ?_
      · intro he
        cases k with
        | create =>
            obtain rfl := Event.ack.inj he
            cases k' with
            | create => exact absurd rfl e
            | remove => rfl
        | remove => cases he
      · intro he
        cases k with
        | create => cases he
        | remove =>
            obtain rfl := Event.unmap.inj he
            cases k' with
            | create => rfl
            | remove => exact absurd rfl e
      · intro id he
        cases k <;> cases he
      · intro he
        cases k <;> cases he
  · refine h.idle_step hst (fun k'' hr => hother c' k'' fun e => ?_) hc' hid k'
    obtain ⟨rfl, rfl⟩ := Prod.mk.inj e
    exact hun (by rw [unanswered, hr, List.drop_nil])

theorem synced_initial : initial.Synced := by
  refine ⟨Server.good_initial, fun c k => Nat.zero_le _, ?_, fun c _ _ k => ⟨rfl, rfl⟩⟩
  rintro c ⟨⟩

/-- **The unanswered requests are those the bank lists stand for, in every reachable state.** -/
theorem reach_synced {C : Net → Label → Prop} (h : lts.Reach C n) : n.Synced := by
  refine h.invariant (fun n (hn : n = initial) => hn ▸ synced_initial) ?_
  intro n l n' hs _ hst
  cases l with
  | op o => exact hs.step_op hst
  | answer c k r => exact hs.step_answer hst

/-! ### Attribution of responses -/

theorem map_filterMap_tx {b : Book} (h : b.Inv) (c : ConnId) (k : ReqKind) :
    (b.pend c k).map Tx.slots = (b.maps c k.list).map b.slotsOf ∧
      (b.pend c k).map Tx.about = (b.maps c k.list).map some :=
  Book.map_filterMap_tx_of_alloc fun _ hm => h.heap_of_mem hm

/-- A connection that is no bank after a step was sent no request in it. -/
theorem Synced.requests_eq (h : n.Synced) {o : Server.Op} (hst : Server.lts.step n.srv o n'.srv)
    (hc' : c ∉ n'.srv.banks) (k : ReqKind) : n'.requests c k = n.requests c k := by
  have hp := Server.step_performs h.good hst
  have hreq : n.srv.ledger.requests (n.srv.event o) c = [] := by
    by_cases hc : c ∈ n.srv.banks
    · rw [hp.event_drop h.good hc hc']
      rfl
    · exact hp.requests_eq_nil h.good hc hc'
  rw [requests_performs hp, hreq]
  exact List.append_nil _

/-- No two unanswered requests of a kind on a connection, be it freed, are about one mapping. -/
theorem reach_once {C : Net → Label → Prop} (h : lts.Reach C n) (c : ConnId) (k : ReqKind) :
    ((n.unanswered c k).map Tx.about).Nodup := by
  refine h.invariant_of (I := fun n => ((n.unanswered c k).map Tx.about).Nodup)
    (fun _ => reach_synced) (fun n (hn : n = initial) => hn ▸ List.nodup_nil) ?_
  intro n l n' hs hs' hnd _ hst
  by_cases hc : c ∈ n'.srv.banks
  · rw [hs'.bank c hc k, (map_filterMap_tx hs'.good.book c k).2]
    exact (hs'.good.book.nodup c k.list).map fun _ _ => Option.some.inj
  · -- no request was added, so that those unanswered now were so before
    obtain ⟨o, ho, han⟩ : ∃ o, Server.lts.step n.srv o n'.srv ∧
        n.answered c k ≤ n'.answered c k := by
      cases l with
      | op o =>
          obtain ⟨_, ho, han⟩ := Net.step_op.mp hst
          exact ⟨o, ho, Nat.le_of_eq (by rw [han])⟩
      | answer c' k' r =>
          obtain ⟨_, ho, han⟩ := Net.step_answer.mp hst
          refine ⟨_, ho, ?_⟩
          rw [han]
          by_cases e : (c, k) = (c', k')
          · obtain ⟨rfl, rfl⟩ := Prod.mk.inj e
            rw [count_self]
            exact Nat.le_succ _
          · exact Nat.le_of_eq (count_of_ne e).symm
    refine hnd.sublist (List.Sublist.map _ ?_)
    unfold unanswered
    rw [hs.requests_eq ho hc, ← Nat.add_sub_cancel' han, ← List.drop_drop]
    exact List.drop_sublist _ _

/-- What a response does to the mapping at the head of the list of its kind. -/
def outcome : ReqKind → SlotMapping → Option SlotMapping
  | .create, x => some { x with state := .active }
  | .remove, _ => none

/-- A response changes the mapping at the head of the list of its kind and no other. -/
theorem Synced.heap_answer (h : n.Synced) (hp : Server.Performs n.srv (respEvent c k) n'.srv) :
    ∃ m ms x, n.srv.maps c k.list = m :: ms ∧ n.srv.heap m = some x ∧
      n'.srv.heap = Function.update n.srv.heap m (outcome k x) := by
  have hl : n'.srv.book = (n.srv.ledger.apply (respEvent c k)).toBook :=
    congrArg Ledger.toBook hp.ledger
  cases hm : n.srv.maps c k.list with
  | nil => cases k <;> exact absurd hm hp.valid.2
  | cons m ms =>
      have hin : m ∈ n.srv.book.maps c k.list := by
        show m ∈ n.srv.maps c k.list
        rw [hm]
        exact List.mem_cons_self
      obtain ⟨x, hx⟩ := h.good.book.heap_of_mem hin
      have hx' : n.srv.heap m = some x := hx
      refine ⟨m, ms, x, rfl, hx, (congrArg (fun b : Book => b.heap) hl).trans ?_⟩
      cases k with
      | create =>
          have hm' : n.srv.book.maps c .mapsUnack = m :: ms := hm
          show (Book.ack n.srv.book c).heap = _
          unfold Book.ack
          rw [hm']
          show Function.update n.srv.heap m ((n.srv.heap m).map _) = _
          rw [hx']
          rfl
      | remove =>
          have hm' : n.srv.book.maps c .mapsDeleting = m :: ms := hm
          show (Book.unmap n.srv.book c).heap = _
          unfold Book.unmap
          rw [hm']
          rfl

theorem Synced.answer_enabled (h : n.Synced) (hun : n.unanswered c k ≠ [])
    (ho : n.srv.isOpen c = true) (r : ResultCode) : ∃ n', lts.step n (.answer c k r) n' := by
  obtain ⟨hc, hlive⟩ := h.live hun ho
  have hfi := Server.live_iff.mp hlive
  have hne : n.srv.maps c k.list ≠ [] := by
    intro e
    refine hun ?_
    rw [h.bank c hc k, Book.pend, show n.srv.book.maps c k.list = [] from e]
    rfl
  have hok : ∃ s', n.srv.perform (.rx c (k.response r)) = .ok s' := by
    cases k with
    | create =>
        have ha : n.srv.accepts c .createMapRes = true :=
          (Server.accepts_bankd (.inr (.inl rfl))).mpr hfi
        obtain ⟨s', hs⟩ := h.good.createMapRes_ok ho hne
        refine ⟨s', ?_⟩
        simp only [Server.perform, ReqKind.response, Server.handleRxRspro, ha, if_true, hs]
    | remove =>
        have ha : n.srv.accepts c .removeMapRes = true :=
          (Server.accepts_bankd (.inr (.inr rfl))).mpr hfi
        obtain ⟨s', hs⟩ := h.good.removeMapRes_ok hne
        refine ⟨s', ?_⟩
        simp only [Server.perform, ReqKind.response, Server.handleRxRspro, ha, if_true, hs]
  obtain ⟨s', hs⟩ := hok
  exact ⟨⟨s', n.count c k⟩, Net.step_answer.mpr ⟨hun, Server.lts_step.mpr ⟨ho, hs⟩, rfl⟩⟩

/-- **Responses are attributed to the right mapping without tags.**  On every bank connection the
unanswered requests of a kind name, in order, the slots of the mappings on the list of that kind.
A response to an outstanding request can be processed, and it changes exactly the mapping whose
request is the first unanswered one: a create response makes it active, a remove response frees
it. -/
theorem reach_attributed (h : lts.Reach Transition.Lts.Any n) (hc : c ∈ n.srv.banks) (k : ReqKind) :
    (n.unanswered c k).map Tx.slots = (n.srv.maps c k.list).map n.srv.book.slotsOf ∧
      (n.unanswered c k).map Tx.about = (n.srv.maps c k.list).map some ∧
      (n.unanswered c k ≠ [] → n.srv.isOpen c = true →
        ∀ r, ∃ n', lts.step n (.answer c k r) n') ∧
      ∀ r n', lts.step n (.answer c k r) n' → ∃ t m x, n.unanswered c k = t :: n'.unanswered c k ∧
        t.about = some m ∧ n.srv.heap m = some x ∧ t.slots = some x.slots ∧
        n'.srv.heap = Function.update n.srv.heap m (outcome k x) := by
  have hs := reach_synced h
  obtain ⟨h₁, h₂⟩ := map_filterMap_tx hs.good.book c k
  rw [← hs.bank c hc k] at h₁ h₂
  refine ⟨h₁, h₂, fun hun ho r => hs.answer_enabled hun ho r, fun r n' hst => ?_⟩
  obtain ⟨hun, hst', han⟩ := Net.step_answer.mp hst
  have ho : n.srv.isOpen c = true := (Server.lts_step.mp hst').1
  have hp := Server.step_performs hs.good hst'
  rw [hs.event_answer hun ho r] at hp
  obtain ⟨m, ms, x, hm, hx, hheap⟩ := hs.heap_answer hp
  have hreq : n'.requests c k = n.requests c k := by
    rw [requests_performs hp]
    cases k <;> exact List.append_nil _
  have htail : n'.unanswered c k = (n.unanswered c k).tail := by
    rw [unanswered, unanswered, hreq, han, count_self, List.tail_drop]
  cases ht : n.unanswered c k with
  | nil => exact absurd ht hun
  | cons t ts =>
      have hm' : n.srv.book.maps c k.list = m :: ms := hm
      rw [ht, hm', List.map_cons, List.map_cons] at h₁ h₂
      refine ⟨t, m, x, by rw [htail, ht]; rfl, (List.cons.inj h₂).1, hx, ?_, hheap⟩
      rw [(List.cons.inj h₁).1, Book.slotsOf, show n.srv.book.heap m = some x from hx]
      rfl

/-- A bank connects, two mappings are created and the first is acknowledged. -/
def twoRun : List Label :=
  [.op (.accept (some 1)), .op (.rx 0 (.connectBankReq .remsimBankd 1 8)),
    .op (.post ⟨1, 0⟩ ⟨5, 0⟩), .op (.post ⟨1, 1⟩ ⟨6, 0⟩), .op .eventFd, .answer 0 .create .ok]

/-- The state at the end of `twoRun`. -/
def twoMaps : Net := (Transition.exec next initial twoRun).getD initial

theorem reach_twoMaps : lts.Reach Transition.Lts.Any twoMaps :=
  Transition.reach_of_exec (c := fun _ _ => true) (w := twoRun) (fun _ _ _ => trivial) rfl rfl
    (by decide)

/-- There the second create request is unanswered, and it is about the second mapping. -/
theorem twoMaps_attributed :
    (twoMaps.unanswered 0 .create).map Tx.slots = [some (⟨1, 1⟩, ⟨6, 0⟩)] ∧
      (twoMaps.unanswered 0 .create).map Tx.about = [some 1] := by
  obtain ⟨h₁, h₂, _⟩ := reach_attributed reach_twoMaps (c := 0) (by decide) .create
  exact ⟨h₁.trans (by decide), h₂.trans (by decide)⟩

/-! ### Slot-map bookkeeping -/

/-- The invariants of the slot-map bookkeeping, in terms of the data of the server. -/
structure Bookkeeping (s : Server) : Prop where
  /-- A mapping is on at most one bank list, and there once. -/
  oneList : ∀ m c l c' l', m ∈ s.maps c l → m ∈ s.maps c' l' → c = c' ∧ l = l'
  once : ∀ c l, (s.maps c l).Nodup
  /-- On a list it has the state of the list, and the connection is that of its bank. -/
  listed : ∀ m c l, m ∈ s.maps c l → c ∈ s.banks ∧ ∃ x k, s.heap m = some x ∧
    s.conns c = some k ∧ x.state = l.state ∧ k.bankId = x.bank.bankId
  /-- On no list it is `NEW`. -/
  unlisted : ∀ m x, s.heap m = some x → (∀ c l, m ∉ s.maps c l) → x.state = .new
  /-- The global list holds allocated mappings; those that are `NEW` are queued at their bank. -/
  allocated : ∀ m ∈ s.mappings, ∃ x, s.heap m = some x
  queued : ∀ m ∈ s.mappings, ∀ x, s.heap m = some x → x.state = .new → ∀ c ∈ s.banks, ∀ k,
    s.conns c = some k → k.bankId = x.bank.bankId → m ∈ s.maps c .mapsNew
  /-- No two mappings of the global list share a slot. -/
  bankSlots : ∀ m ∈ s.mappings, ∀ m' ∈ s.mappings, ∀ x x', s.heap m = some x →
    s.heap m' = some x' → x.bank = x'.bank → m = m'
  clientSlots : ∀ m ∈ s.mappings, ∀ m' ∈ s.mappings, ∀ x x', s.heap m = some x →
    s.heap m' = some x' → x.client = x'.client → m = m'
  /-- The connection looked up for an active mapping is the one that holds it, so that
  `_slotmap_mark_deleted()` does not run into a null pointer. -/
  activeConn : ∀ m x, s.heap m = some x → x.state = .active →
    ∃ c, s.bankdConnById x.bank.bankId = some c ∧ m ∈ s.maps c .mapsActive
  markDeleted : ∀ m ∈ s.mappings, ∃ s', s.slotmapMarkDeleted m = .ok s'
  /-- The assertion on a `RemoveMappingRes` holds. -/
  deletingState : ∀ c, s.removeMapRes c ≠ .error .assertion

/-- **The bookkeeping invariants hold in every reachable state.** -/
theorem reach_bookkeeping (h : lts.Reach Transition.Lts.Any n) : Bookkeeping n.srv := by
  have hg := (reach_synced h).good
  have hb := hg.book
  refine ⟨fun m c l c' l' => hb.unique, hb.nodup, ?_, ?_, hb.wf.alloc, ?_, ?_, ?_, ?_,
    fun m => hg.markDeleted, hg.removeMapRes_assertion⟩
  · intro m c l hm
    obtain ⟨x, hx, hst, hbank⟩ := hb.linked c l m hm
    obtain ⟨hc, k, hk, hid⟩ := Server.bankOf_eq_some.mp hbank
    exact ⟨hc, x, k, hx, hk, hst, hid⟩
  · intro m x hx hoff
    by_contra hst
    obtain ⟨c, l, hm⟩ := hb.placed m x hx hst
    exact hoff c l hm
  · intro m hm x hx hst c hc k hk hid
    exact hb.queued m x c hm hx hst (Server.bankOf_eq_some.mpr ⟨hc, k, hk, hid⟩)
  · intro m hm m' hm' x x' hx hx'
    exact hb.wf.bank m hm m' hm' x x' hx hx'
  · intro m hm m' hm' x x' hx hx'
    exact hb.wf.client m hm m' hm' x x' hx hx'
  · intro m x hx hst
    exact hb.conn_of_active hg.bankdConnById_iff hx hst

theorem twoMaps_bookkeeping : Bookkeeping twoMaps.srv := reach_bookkeeping reach_twoMaps

end Net
end Remsim
