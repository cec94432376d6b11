import Remsim.Refinement

/-! # How connections end

The FSM of a connection ends for one of four causes: the socket closes (`CLNTC_E_TCP_DOWN`), the
IPA keep-alive times out (`CLNTC_E_KA_TIMEOUT`), a timer of the FSM expires, or
`clnt_st_established()` terminates it on a protocol error.  `Released` says what a terminated
connection has to leave behind.

The first cause enters the teardown through `sock_closed_cb()`, which clears `conn->peer`
before the FSM is terminated, so `rspro_client_conn_destroy()` runs to its end.  The other three
enter it through `osmo_fsm_inst_term()`; there `conn->fi` is cleared first, `sock_closed_cb()`
dispatches no `CLNTC_E_TCP_DOWN` any more, and nothing is unlinked or freed. -/

namespace Remsim
namespace Server

/-- The causes that end the FSM of a connection. -/
inductive Cause where
  | tcpDown
  | kaTimeout
  | timer
  | protocolError (pdu : RsproPDU)
deriving DecidableEq, Repr

/-- The PDUs on which `clnt_st_established()` terminates the FSM. -/
def offending : RsproPDU → Bool
  | .connectClientReq identity clientSlot =>
      decide (identity ≠ .remsimClient) || clientSlot.isNone
  | .connectBankReq identity _ _ => decide (identity ≠ .remsimBankd)
  | _ => false

/-- The step in which a cause takes effect. -/
def Cause.op (c : ConnId) : Cause → Op
  | .tcpDown => .closed c
  | .kaTimeout => .kaTimeout c
  | .timer => .timeout c
  | .protocolError pdu => .rx c pdu

/-- The cause can end the FSM of the connection now. -/
def Cause.Occurs (s : Server) (c : ConnId) : Cause → Prop
  | .tcpDown => s.isOpen c = true
  | .kaTimeout => s.isOpen c = true
  | .timer => s.timerRunning c = true
  | .protocolError pdu => s.fi c = some .established ∧ offending pdu = true

instance (s : Server) (c : ConnId) : (cause : Cause) → Decidable (cause.Occurs s c)
  | .tcpDown => inferInstanceAs (Decidable (s.isOpen c = true))
  | .kaTimeout => inferInstanceAs (Decidable (s.isOpen c = true))
  | .timer => inferInstanceAs (Decidable (s.timerRunning c = true))
  | .protocolError pdu =>
      inferInstanceAs (Decidable (s.fi c = some .established ∧ offending pdu = true))

/-- The connection has left the server: it is in no list and freed, none of its lists links a
mapping, its `NEW`, `UNACKNOWLEDGED` and `ACTIVE` mappings are `NEW` on no list, the others are
deleted, and its identity is free. -/
structure Released (s s' : Server) (c : ConnId) : Prop where
  connections : c ∉ s'.connections
  clients : c ∉ s'.clients
  banks : c ∉ s'.banks
  freed : s'.conns c = none
  unlinked : ∀ l, s'.maps c l = []
  returned : ∀ m, m ∈ s.maps c .mapsNew ∨ m ∈ s.maps c .mapsUnack ∨ m ∈ s.maps c .mapsActive →
    ∃ x, s.heap m = some x ∧ s'.heap m = some { x with state := .new } ∧
      ∀ k l, m ∉ s'.maps k l
  deleted : ∀ m, m ∈ s.maps c .mapsDelreq ∨ m ∈ s.maps c .mapsDeleting →
    s'.heap m = none ∧ m ∉ s'.mappings ∧ ∀ k l, m ∉ s'.maps k l
  bankIdFree : ∀ k, s.conns c = some k → c ∈ s.banks → s'.bankdConnById k.bankId = none
  clientSlotFree : ∀ k, s.conns c = some k → c ∈ s.clients → s'.clientConnBySlot k.clientSlot = none

variable {s : Server} {c : ConnId}

/-- The recursion of the teardown functions does not go deeper than `teardownDepth`. -/
theorem teardown_depth (hg : s.Good) (ho : s.isOpen c = true) (n : ℕ) :
    sockClosedCb (n + teardownDepth) s c = s.tcpDown c ∧
      fsmInstTerm (n + teardownDepth) s c = s.term c := by
  obtain ⟨k, hk, hf, hp⟩ := hg.open_iff.mp ho
  constructor
  · rw [tcpDown, teardownDepth, sockClosedCb_eq hk hf hp n, sockClosedCb_eq hk hf hp 0]
  · rw [term, teardownDepth, fsmInstTerm_eq hk hp n, fsmInstTerm_eq hk hp 0]

theorem Cause.Occurs.isOpen (hg : s.Good) {cause : Cause} (h : cause.Occurs s c) :
    s.isOpen c = true := by
  have hfi : ∀ st, s.fi c = some st → s.isOpen c = true := by
    intro st hst
    obtain ⟨k, hk, hf⟩ := fi_eq_some.mp hst
    refine hg.open_iff.mpr ⟨k, hk, by rw [hf]; rfl, ?_⟩
    rw [← hg.roster.paired c k hk, hf]
    rfl
  cases cause with
  | tcpDown => exact h
  | kaTimeout => exact h
  | timer =>
      have h' : s.timerRunning c = true := h
      have : s.fi c = some .established ∨ s.fi c = some .rejected := by
        simpa [timerRunning] using h'
      rcases this with h | h
      · exact hfi _ h
      · exact hfi _ h
  | protocolError pdu => exact hfi _ h.1

theorem handleRxRspro_offending {pdu : RsproPDU} (h : s.fi c = some .established)
    (ho : offending pdu = true) : s.handleRxRspro c pdu = .ok (s.term c) := by
  have h₁ : s.accepts c .clientConn = true := (accepts_established (.inl rfl)).mpr h
  have h₂ : s.accepts c .bankConn = true := (accepts_established (.inr rfl)).mpr h
  cases pdu with
  | connectClientReq identity clientSlot =>
      simp only [handleRxRspro, h₁, if_true, establishedClientConn]
      by_cases hid : identity = .remsimClient
      · have hnone : clientSlot = none := by simpa [offending, hid] using ho
        simp [hid, hnone]
      · simp [hid]
  | connectBankReq identity bankId n =>
      have hid : identity ≠ .remsimBankd := by simpa [offending] using ho
      simp only [handleRxRspro, h₂, if_true, establishedBankConn]
      simp [hid]
  | _ => cases ho

theorem Cause.perform_eq {cause : Cause} (h : cause.Occurs s c) :
    s.perform (cause.op c) = .ok (if cause = .tcpDown then s.tcpDown c else s.term c) := by
  cases cause with
  | tcpDown => rfl
  | kaTimeout => rfl
  | timer => rfl
  | protocolError pdu => exact handleRxRspro_offending h.1 h.2

/-- A closed socket releases its connection. -/
theorem released_tcpDown (hg : s.Good) (ho : s.isOpen c = true) :
    Released s (s.tcpDown c) c := by
  obtain ⟨hb, hr, _, _⟩ := closed_spec hg ho
  obtain ⟨hmap, _, _, hlists, hheap⟩ := hg.book.unlinkAll_spec c
  have hconns : (s.tcpDown c).conns = Function.update s.conns c none := congrArg Roster.conns hr
  have hmem : ∀ ρ, (s.tcpDown c).roster.members ρ = (s.roster.members ρ).filter (· ≠ c) :=
    fun ρ => congrArg (fun r : Roster => r.members ρ) hr
  have hmaps : ∀ k l, (s.tcpDown c).maps k l = if k = c then [] else s.maps k l := by
    intro k l
    exact (congrFun (congrFun (congrArg Book.maps hb) k) l).trans (hlists k l)
  have hoff : ∀ m l, m ∈ s.maps c l → ∀ k l', m ∉ (s.tcpDown c).maps k l' := by
    intro m l hm k l'
    rw [hmaps]
    split_ifs with e
    · exact List.not_mem_nil
    · exact fun hm' => e (hg.book.unique hm' hm).1
  have hheap' : ∀ m, (s.tcpDown c).heap m = (s.book.unlinkAll c).heap m := by
    intro m
    have : (s.tcpDown c).book.heap m = (s.book.drop c).heap m := by rw [hb]
    exact this
  refine ⟨?_, ?_, ?_, ?_, ?_, ?_, ?_, ?_, ?_⟩
  · have : c ∉ (s.tcpDown c).roster.members .connection := by rw [hmem]; simp
    exact this
  · have : c ∉ (s.tcpDown c).roster.members .client := by rw [hmem]; simp
    exact this
  · have : c ∉ (s.tcpDown c).roster.members .bank := by rw [hmem]; simp
    exact this
  · rw [hconns, Function.update_self]
  · intro l
    rw [hmaps, if_pos rfl]
  · intro m hm
    have hR : s.book.Retained c m := hm
    obtain ⟨l, hl, hl₁, hl₂⟩ : ∃ l, m ∈ s.maps c l ∧ l ≠ .mapsDelreq ∧ l ≠ .mapsDeleting := by
      rcases hm with hm | hm | hm
      · exact ⟨_, hm, by decide, by decide⟩
      · exact ⟨_, hm, by decide, by decide⟩
      · exact ⟨_, hm, by decide, by decide⟩
    have hD : ¬ s.book.Doomed c m := by
      rintro (hd | hd)
      · exact hl₁ (hg.book.unique hl hd).2
      · exact hl₂ (hg.book.unique hl hd).2
    obtain ⟨x, hx⟩ := hg.book.heap_of_mem hl
    refine ⟨x, hx, ?_, hoff m l hl⟩
    rw [hheap', hheap m, if_neg hD, if_pos hR, hx]
    rfl
  · intro m hm
    have hD : s.book.Doomed c m := hm
    refine ⟨?_, ?_, ?_⟩
    · rw [hheap', hheap m, if_pos hD]
    · intro hin
      have hin' : m ∈ (s.book.unlinkAll c).mappings :=
        (congrArg (fun b : Book => m ∈ b.mappings) hb).mp hin
      rw [hmap, List.mem_filter] at hin'
      simp [hD] at hin'
    · rcases hm with hm | hm
      · exact hoff m _ hm
      · exact hoff m _ hm
  · intro k hk hcb
    have hgood : (s.tcpDown c).Good := (closed_performs hg ho).good hg
    refine hgood.bankdConnById_none.mpr fun a ha => ?_
    obtain ⟨ha₁, q, hq, hid⟩ := bankOf_eq_some.mp ha
    have ha₂ : a ∈ (s.tcpDown c).roster.members .bank := ha₁
    rw [hmem, List.mem_filter] at ha₂
    rw [hconns] at hq
    obtain ⟨hne, hq⟩ := ListLib.update_none_eq_some hq
    have hba : s.book.bankOf a = some k.bankId := bankOf_eq_some.mpr ⟨ha₂.1, q, hq, hid⟩
    have hbc : s.book.bankOf c = some k.bankId := bankOf_eq_some.mpr ⟨hcb, k, hk, rfl⟩
    exact hne (hg.book.bankUnique a c _ hba hbc)
  · intro k hk hcc
    refine List.find?_eq_none.mpr fun a ha => ?_
    have ha₂ : a ∈ (s.tcpDown c).roster.members .client := ha
    rw [hmem, List.mem_filter] at ha₂
    have hne : a ≠ c := by simpa using ha₂.2
    rw [hconns, Function.update_of_ne hne]
    cases hq : s.conns a with
    | none => simp
    | some q =>
        have : q.clientSlot ≠ k.clientSlot := fun e =>
          hne (hg.roster.clientUnique a c q k ha₂.1 hcc hq hk e)
        simp [this]

/-- A connection terminated with its socket open is not freed. -/
theorem not_released_term (hg : s.Good) (ho : s.isOpen c = true) :
    ¬ Released s (s.term c) c := by
  obtain ⟨k, hk, _, hp⟩ := hg.open_iff.mp ho
  intro h
  have := h.freed
  rw [term, teardownDepth, fsmInstTerm_eq hk hp 0, detach, modConn_conns_self, hk] at this
  cases this

/-- **A terminating cause releases the connection exactly when it is the socket closing.** -/
theorem released_iff_tcpDown (h : lts.Reach Transition.Lts.Any s) (cause : Cause)
    (hocc : cause.Occurs s c) :
    ∃ s', s.perform (cause.op c) = .ok s' ∧ (Released s s' c ↔ cause = .tcpDown) := by
  have hg := reach_good h
  have ho := hocc.isOpen hg
  refine ⟨_, cause.perform_eq hocc, ?_⟩
  by_cases he : cause = .tcpDown
  · rw [if_pos he]
    exact ⟨fun _ => he, fun _ => released_tcpDown hg ho⟩
  · rw [if_neg he]
    exact ⟨fun hrel => absurd hrel (not_released_term hg ho), fun e => absurd e he⟩

/-- A bank connects and one mapping becomes active on it. -/
def bankRun : List Op :=
  [.accept (some 1), .rx 0 (.connectBankReq .remsimBankd 1 8), .post ⟨1, 0⟩ ⟨5, 0⟩, .eventFd,
    .rx 0 (.createMappingRes .ok)]

/-- The state at the end of `bankRun`. -/
def bankUp : Server := (Transition.exec stepOp initial bankRun).getD initial

theorem reach_bankUp : lts.Reach Transition.Lts.Any bankUp :=
  Transition.reach_of_exec (c := fun _ _ => true) (w := bankRun) (fun _ _ _ => trivial) rfl rfl
    (by decide)

/-- Closing the socket of that bank releases it. -/
theorem bankUp_closed :
    ∃ s', bankUp.perform (Cause.tcpDown.op 0) = .ok s' ∧ Released bankUp s' 0 := by
  obtain ⟨s', hp, h⟩ :=
    released_iff_tcpDown reach_bankUp .tcpDown (c := 0) (by decide)
  exact ⟨s', hp, h.mpr rfl⟩

/-- A keep-alive timeout of that bank leaves it in `srv->banks` with its active mapping. -/
theorem bankUp_kaTimeout_not_released :
    lts.Reach Transition.Lts.Any bankUp ∧ Cause.kaTimeout.Occurs bankUp 0 ∧
      ∃ s', bankUp.perform (Cause.kaTimeout.op 0) = .ok s' ∧ 0 ∈ s'.banks ∧
        s'.maps 0 .mapsActive = [0] ∧ ¬ Released bankUp s' 0 := by
  refine ⟨reach_bankUp, by decide, _, rfl, by decide, by decide, fun h => ?_⟩
  exact absurd (h.unlinked .mapsActive) (by decide)

end Server
end Remsim
