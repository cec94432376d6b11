import Remsim.ClientMain

/-! # Responses of the card at the SIMtrace2 frontend (`user_simtrace2.c`)

`frontend_handle_card2modem()` cuts the status word off the end of a response with indices that are
computed by unsigned subtraction.  `CardemStep.reads` holds the indices that it reads; an octet that
is not part of the response is whatever stands in memory there (`beyond`).  Of the APDU context the
instruction and the status word are kept.

* `response_iff`: a response is handled as it should be exactly when it has a status word. -/

namespace Remsim

/-- `struct osmo_apdu_context`, as far as it is used. -/
structure ApduContext where
  ins : UInt8
  sw : UInt8 × UInt8
deriving DecidableEq, Repr

/-- Requests to the card emulator. -/
inductive CardemRequest where
  /-- `osmo_st2_cardem_request_pb_and_tx()`. -/
  | pbAndTx (pb : UInt8) (data : List UInt8)
  /-- `osmo_st2_cardem_request_sw_tx()`. -/
  | swTx (sw : UInt8 × UInt8)
deriving DecidableEq, Repr

/-- What handling a response does. -/
structure CardemStep where
  ac : ApduContext
  requests : List CardemRequest
  reads : List ℕ
deriving DecidableEq, Repr

/-- A difference of two `size_t`. -/
def sizeSub (len k : ℕ) : ℕ := if k ≤ len then len - k else len + 2 ^ 64 - k

/-- `frontend_handle_card2modem()`. -/
def frontendHandleCard2modem (beyond : ℕ → UInt8) (ac : ApduContext) (data : List UInt8) :
    CardemStep :=
  let i := sizeSub data.length 2
  let j := sizeSub data.length 1
  let sw := (data.getD i (beyond i), data.getD j (beyond j))
  let long := data.length > 2
  { ac := { ac with sw := sw }
    requests := (if long then [.pbAndTx ac.ins (data.take i)] else []) ++ [.swTx sw]
    reads := [i, j] ++ if long then List.range i else [] }

/-- How a response shall be handled. -/
structure HandlesResponse (beyond : ℕ → UInt8) (ac : ApduContext) (data : List UInt8) : Prop where
  inside : ∀ i ∈ (frontendHandleCard2modem beyond ac data).reads, i < data.length
  status : ∀ body sw₁ sw₂, data = body ++ [sw₁, sw₂] →
    (frontendHandleCard2modem beyond ac data).requests =
      (if body.length > 0 then [.pbAndTx ac.ins body] else []) ++ [.swTx (sw₁, sw₂)] ∧
    (frontendHandleCard2modem beyond ac data).ac = { ac with sw := (sw₁, sw₂) }
  short : data.length < 2 → (frontendHandleCard2modem beyond ac data).requests = [] ∧
    (frontendHandleCard2modem beyond ac data).ac = ac

variable {beyond : ℕ → UInt8} {ac : ApduContext} {data body : List UInt8}

theorem frontendHandleCard2modem_append (beyond : ℕ → UInt8) (ac : ApduContext)
    (body : List UInt8) (sw₁ sw₂ : UInt8) :
    frontendHandleCard2modem beyond ac (body ++ [sw₁, sw₂]) =
      { ac := { ac with sw := (sw₁, sw₂) }
        requests := (if body.length > 0 then [.pbAndTx ac.ins body] else []) ++ [.swTx (sw₁, sw₂)]
        reads := [body.length, body.length + 1] ++
          if body.length > 0 then List.range body.length else [] } := by
  have hlen : (body ++ [sw₁, sw₂]).length = body.length + 2 := List.length_append
  have hi : sizeSub (body.length + 2) 2 = body.length := if_pos (by omega)
  have hj : sizeSub (body.length + 2) 1 = body.length + 1 := if_pos (by omega)
  have hlong : body.length + 2 > 2 ↔ body.length > 0 := by omega
  have h₁ : (body ++ [sw₁, sw₂]).getD body.length (beyond body.length) = sw₁ := by
    rw [List.getD_append_right _ _ _ _ (le_refl _), Nat.sub_self]
    rfl
  have h₂ : (body ++ [sw₁, sw₂]).getD (body.length + 1) (beyond (body.length + 1)) = sw₂ := by
    rw [List.getD_append_right _ _ _ _ (Nat.le_add_right _ _), Nat.add_sub_cancel_left]
    rfl
  simp only [frontendHandleCard2modem, hlen, hi, hj, hlong, h₁, h₂, List.take_left]

theorem exists_status (h : 2 ≤ data.length) : ∃ body sw₁ sw₂, data = body ++ [sw₁, sw₂] := by
  have hlen : (data.drop (data.length - 2)).length = 2 := by
    rw [List.length_drop]
    omega
  obtain ⟨sw₁, sw₂, hsw⟩ := List.length_eq_two.mp hlen
  refine ⟨data.take (data.length - 2), sw₁, sw₂, ?_⟩
  rw [← hsw, List.take_append_drop]

theorem handlesResponse_iff : HandlesResponse beyond ac data ↔ 2 ≤ data.length := by
  constructor
  · intro h
    by_contra hlt
    have hnil := (h.short (by omega)).1
    exact List.append_ne_nil_of_right_ne_nil _ (List.cons_ne_nil _ _) hnil
  · intro h
    obtain ⟨body, sw₁, sw₂, rfl⟩ := exists_status h
    refine ⟨?_, ?_, fun hlt => absurd h (by omega)⟩
    · intro i hi
      rw [frontendHandleCard2modem_append] at hi
      have hlen : (body ++ [sw₁, sw₂]).length = body.length + 2 := List.length_append
      simp only [List.mem_append, List.mem_cons, List.not_mem_nil, or_false] at hi
      rcases hi with (rfl | rfl) | hi
      · omega
      · omega
      · split_ifs at hi
        · rw [List.mem_range] at hi
          omega
        · exact absurd hi List.not_mem_nil
    · intro body' sw₁' sw₂' heq
      obtain ⟨rfl, hsw⟩ := List.append_inj' heq rfl
      simp only [List.cons.injEq, and_true] at hsw
      obtain ⟨rfl, rfl⟩ := hsw
      rw [frontendHandleCard2modem_append]
      exact ⟨rfl, rfl⟩

variable (notifies : Stream → Bool)

/-- An operational client passes the data of a `tpduCardToModem` on as they are. -/
theorem bankdHandleRx_tpdu {c : Client} (h : c.mainFi.state = .operational) (src : BankSlotT)
    (dst : ClientSlotT) (data : List UInt8) :
    c.bankdHandleRx notifies (.tpduCardToModem src dst data) = c.call [.handleCard2modem data] := by
  show c.dispatch notifies (.bankdTpdu data) = _
  rw [Client.dispatch_eq]
  simp only [Client.handle, h, if_true, Client.serve]

/-- **A response of the card is handled as it should be exactly when it has two octets at least**,
whatever the client has received before. -/
theorem response_iff (c : Client) (h : c.mainFi.state = .operational) (src : BankSlotT)
    (dst : ClientSlotT) (data : List UInt8) (beyond : ℕ → UInt8) (ac : ApduContext) :
    (c.bankdHandleRx notifies (.tpduCardToModem src dst data)).frontend =
        c.frontend ++ [.handleCard2modem data] ∧
      (HandlesResponse beyond ac data ↔ 2 ≤ data.length) :=
  ⟨congrArg Client.frontend (bankdHandleRx_tpdu notifies h src dst data), handlesResponse_iff⟩

/-- A client that serves its modem. -/
def serving : Client := { Client.started with mainFi := ⟨.operational, none⟩ }

theorem statusWord_handled :
    (serving.bankdHandleRx (fun _ => true) (.tpduCardToModem ⟨1, 0⟩ ⟨3, 0⟩ [0x90, 0x00])).frontend =
        [.handleCard2modem [0x90, 0x00]] ∧
      HandlesResponse (fun _ => 0) ⟨0xa4, (0, 0)⟩ [0x90, 0x00] := by
  have h := response_iff (fun _ => true) serving rfl ⟨1, 0⟩ ⟨3, 0⟩ [0x90, 0x00] (fun _ => 0)
    ⟨0xa4, (0, 0)⟩
  exact ⟨h.1, h.2.mpr (by decide)⟩

/-- A response of one octet: the octet in front of it is read, and two octets are sent. -/
theorem oneOctet_misread :
    ¬HandlesResponse (fun _ => 0) ⟨0xa4, (0, 0)⟩ [0x90] ∧
      frontendHandleCard2modem (fun _ => 0) ⟨0xa4, (0, 0)⟩ [0x90] =
        ⟨⟨0xa4, (0, 0x90)⟩, [.swTx (0, 0x90)], [2 ^ 64 - 1, 0]⟩ := by
  refine ⟨fun h => ?_, by decide⟩
  exact absurd (h.short (by decide)).1 (by decide)

end Remsim
