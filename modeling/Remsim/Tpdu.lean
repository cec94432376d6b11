import Remsim.Der
import Remsim.KiProxy

/-! # A command TPDU and its answer (`worker_handle_tpduModemToCard()`)

One TPDU from the request to the socket: the checks, the transceive of the card driver of this
worker or of the worker chosen by the KI proxy, the encoding of the answer into a message buffer,
and `write()`.  Driver and socket are arbitrary: a driver returns a code and the response, `write()`
the number of octets it took or a negative number.  Memory for a PDU or a buffer is always there.

`derTpduCardToModem` is the encoding that the tables of `RsproPDU`, `RsproPDUchoice` and
`TpduCardToModem` prescribe; `fits_iff` says for which responses it fits the buffer.
`handleTpduModemToCard_eq` connects the handler to the worker of the process. -/

namespace Remsim

/-! ### The answer on the wire -/

/-- `BankSlot` or `ClientSlot`: a sequence of two integers. -/
def derSlot (id slotNr : ℤ) : List UInt8 :=
  Der.tlv 0x30 (Der.integer 0x02 id ++ Der.integer 0x02 slotNr)

/-- `TpduFlags`, all of them clear. -/
def derTpduFlags : List UInt8 :=
  Der.tlv 0x30 (Der.boolean false ++ Der.boolean false ++ Der.boolean false ++ Der.boolean false)

/-- The encoding of what `rspro_gen_TpduCard2Modem()` generates. -/
def derTpduCardToModem (bank : BankSlotT) (client : ClientSlotT) (tpdu : List UInt8) :
    List UInt8 :=
  let members := derSlot bank.bankId bank.slotNr ++ derSlot client.clientId client.slotNr ++
    derTpduFlags ++ Der.octetString tpdu
  Der.tlv 0x30 (Der.integer 0x80 2 ++ Der.integer 0x81 0 ++ Der.tlv 0xa2 (Der.tlv 0xad members))

/-- `msgb_tailroom()` of a buffer from `rspro_msgb_alloc()`: 1024 octets with a headroom of 8. -/
def rsproTailroom : ℕ := 1024 - 8

/-- `rspro_enc_msg()`, given the encoding: it fails when that does not fit. -/
def rsproEncMsg (der : List UInt8) : Option (List UInt8) :=
  if der.length ≤ rsproTailroom then some der else none

/-- `ipa_prepend_header_ext()` and `ipa_prepend_header()` of libosmogsm, by the format of IPA
messages: the length, the stream identifier and its extension. -/
def ipaPrependHeader (l2 : List UInt8) : List UInt8 :=
  let len := l2.length + 1
  [.ofNat (len / 256), .ofNat len, 0xee, 0x07] ++ l2

/-- A call of `write()` and its result. -/
structure Write where
  data : List UInt8
  result : ℤ
deriving DecidableEq, Repr

/-- `worker_send_rspro()`, given the encoding of the PDU: the return code and the calls of
`write()`. -/
def workerSendRspro (write : List UInt8 → ℤ) (der : List UInt8) : ℤ × List Write :=
  match rsproEncMsg der with
  | none => (-1, [])
  | some l2 =>
      let msg := ipaPrependHeader l2
      let rc := write msg
      (if rc = msg.length then 0 else -1, [⟨msg, rc⟩])

/-- The contents octets of the four numbers in the slots of an answer. -/
def slotOctets (bank : BankSlotT) (client : ClientSlotT) : ℕ :=
  (Der.integerOctets bank.bankId).length + (Der.integerOctets bank.slotNr).length +
    ((Der.integerOctets client.clientId).length + (Der.integerOctets client.slotNr).length)

theorem length_derSlot (id slotNr : ℤ) : (derSlot id slotNr).length =
    6 + ((Der.integerOctets id).length + (Der.integerOctets slotNr).length) := by
  have hid := (Der.integerOctets_length id).2
  have hnr := (Der.integerOctets_length slotNr).2
  have hsum : (Der.integer 0x02 id ++ Der.integer 0x02 slotNr).length =
      4 + ((Der.integerOctets id).length + (Der.integerOctets slotNr).length) := by
    rw [List.length_append, Der.length_integer, Der.length_integer]
    omega
  unfold derSlot
  rw [Der.length_tlv_short (by omega), hsum]
  omega

theorem length_derTpduFlags : derTpduFlags.length = 14 := by
  have hsum : (Der.boolean false ++ Der.boolean false ++ Der.boolean false ++
      Der.boolean false).length = 12 := by
    simp only [List.length_append, Der.length_boolean]
  unfold derTpduFlags
  rw [Der.length_tlv_short (by omega), hsum]

/-- **The answers that fit the buffer.** -/
theorem fits_iff (bank : BankSlotT) (client : ClientSlotT) (tpdu : List UInt8) :
    (derTpduCardToModem bank client tpdu).length ≤ rsproTailroom ↔
      tpdu.length + slotOctets bank client ≤ 968 := by
  have hb := Der.integerOctets_length bank.bankId
  have hs := Der.integerOctets_length bank.slotNr
  have hc := Der.integerOctets_length client.clientId
  have hn := Der.integerOctets_length client.slotNr
  have hv : (Der.integer 0x80 2).length = 3 := by decide +kernel
  have ht : (Der.integer 0x81 0).length = 3 := by decide +kernel
  generalize hmem : derSlot bank.bankId bank.slotNr ++ derSlot client.clientId client.slotNr ++
    derTpduFlags ++ Der.octetString tpdu = members
  generalize hk : slotOctets bank client = k
  have hk4 : 4 ≤ k ∧ k ≤ 32 := by
    rw [← hk]
    unfold slotOctets
    omega
  -- the sizes from the innermost contents outwards
  have h₁ : members.length = 27 + k + (Der.lengthOctets tpdu.length).length + tpdu.length := by
    rw [← hmem, ← hk]
    unfold slotOctets Der.octetString
    simp only [List.length_append, length_derSlot, length_derTpduFlags, Der.length_tlv]
    omega
  have h₂ := Der.length_tlv 0xad members
  have h₃ := Der.length_tlv 0xa2 (Der.tlv 0xad members)
  have h₄ : (derTpduCardToModem bank client tpdu).length =
      1 + (Der.lengthOctets (6 + (Der.tlv 0xa2 (Der.tlv 0xad members)).length)).length +
        (6 + (Der.tlv 0xa2 (Der.tlv 0xad members)).length) := by
    have hsum : (Der.integer 0x80 2 ++ Der.integer 0x81 0 ++
        Der.tlv 0xa2 (Der.tlv 0xad members)).length =
          6 + (Der.tlv 0xa2 (Der.tlv 0xad members)).length := by
      rw [List.length_append, List.length_append, hv, ht]
    unfold derTpduCardToModem
    rw [hmem, Der.length_tlv, hsum]
  unfold rsproTailroom
  constructor
  · intro hfit
    by_contra hlong
    -- all four length fields have at least three octets
    have l₁ : 3 ≤ (Der.lengthOctets tpdu.length).length := Der.le_lengthOctets (by omega)
    have l₂ : 3 ≤ (Der.lengthOctets members.length).length := Der.le_lengthOctets (by omega)
    have l₃ : 3 ≤ (Der.lengthOctets (Der.tlv 0xad members).length).length :=
      Der.le_lengthOctets (by omega)
    have l₄ : 3 ≤ (Der.lengthOctets
        (6 + (Der.tlv 0xa2 (Der.tlv 0xad members)).length)).length :=
      Der.le_lengthOctets (by omega)
    omega
  · intro hshort
    have l₁ : (Der.lengthOctets tpdu.length).length ≤ 3 := Der.lengthOctets_le (by omega)
    have l₂ : (Der.lengthOctets members.length).length ≤ 3 := Der.lengthOctets_le (by omega)
    have l₃ : (Der.lengthOctets (Der.tlv 0xad members).length).length ≤ 3 :=
      Der.lengthOctets_le (by omega)
    have l₄ : (Der.lengthOctets
        (6 + (Der.tlv 0xa2 (Der.tlv 0xad members)).length)).length ≤ 3 :=
      Der.lengthOctets_le (by omega)
    omega

/-! ### The handler -/

/-- What a card driver returns for a transceive: its code, and the response. -/
structure DriverResult where
  rc : ℤ
  resp : List UInt8
deriving DecidableEq, Repr

namespace Bankd

variable (d : Bankd) (transceive : ℕ → List UInt8 → DriverResult) (write : List UInt8 → ℤ)

/-- `worker_handle_ki_proxy()`; `transceive j` is the driver function of worker `j`. -/
def workerHandleKiProxy (i : ℕ) (w : Worker) (apdu : List UInt8) : DriverResult :=
  match d.kiProxyTarget i w apdu with
  | none => ⟨-1, []⟩
  | some j => transceive j apdu

/-- The result that `worker_handle_tpduModemToCard()` goes on with. -/
def tpduResult (i : ℕ) (w : Worker) (data : List UInt8) : DriverResult :=
  if d.kiProxied w data then d.workerHandleKiProxy transceive i w data else transceive i data

/-- `worker_handle_tpduModemToCard()`: the return code, and the calls of `write()`. -/
def workerHandleTpduModemToCard (i : ℕ) (w : Worker) (src : ClientSlotT) (dst : BankSlotT)
    (data : List UInt8) : ℤ × List Write :=
  if w.state ≠ .connClientMappedCard then (-104, [])
  else if w.slot ≠ rspro2bankSlot dst then (-105, [])
  else if w.clslot ≠ rspro2clientSlot src then (-106, [])
  else
    let r := d.tpduResult transceive i w data
    if r.rc < 0 then (r.rc, [])
    else
      -- the result of `worker_send_rspro()` is not looked at
      (0, (workerSendRspro write (derTpduCardToModem dst src r.resp)).2)

/-- The message that carries an answer. -/
def answerMsg (src : ClientSlotT) (dst : BankSlotT) (resp : List UInt8) : List UInt8 :=
  ipaPrependHeader (derTpduCardToModem dst src resp)

/-- **One answer or a closed session**: the one call of `write()` has taken the whole answer, or the
return code is negative, so that the session ends. -/
def Answered (src : ClientSlotT) (dst : BankSlotT) (resp : List UInt8) (r : ℤ × List Write) :
    Prop :=
  r.1 < 0 ∨ r.2 = [⟨answerMsg src dst resp, (answerMsg src dst resp).length⟩]

variable {d} {transceive} {write} {i : ℕ} {w : Worker} {src : ClientSlotT} {dst : BankSlotT}
  {data : List UInt8}

theorem workerHandleTpdu_accepted (ha : tpduAccepted w src dst = true) :
    d.workerHandleTpduModemToCard transceive write i w src dst data =
      if (d.tpduResult transceive i w data).rc < 0 then
        ((d.tpduResult transceive i w data).rc, [])
      else
        (0, (workerSendRspro write
          (derTpduCardToModem dst src (d.tpduResult transceive i w data).resp)).2) := by
  obtain ⟨hst, hsl, hcl⟩ := tpduAccepted_iff.mp ha
  unfold workerHandleTpduModemToCard
  rw [if_neg (not_not.mpr hst), if_neg (not_not.mpr hsl), if_neg (not_not.mpr hcl)]

theorem workerSendRspro_fits {der : List UInt8} (h : der.length ≤ rsproTailroom) :
    (workerSendRspro write der).2 = [⟨ipaPrependHeader der, write (ipaPrependHeader der)⟩] := by
  unfold workerSendRspro rsproEncMsg
  rw [if_pos h]

theorem workerSendRspro_long {der : List UInt8} (h : ¬der.length ≤ rsproTailroom) :
    (workerSendRspro write der).2 = [] := by
  unfold workerSendRspro rsproEncMsg
  rw [if_neg h]

/-- **When a TPDU is answered or the session closed**: the transceive fails, or the response is
short enough for the buffer and `write()` takes all of the message. -/
theorem answered_iff (ha : tpduAccepted w src dst = true) :
    Answered src dst (d.tpduResult transceive i w data).resp
        (d.workerHandleTpduModemToCard transceive write i w src dst data) ↔
      (d.tpduResult transceive i w data).rc < 0 ∨
        ((d.tpduResult transceive i w data).resp.length + slotOctets dst src ≤ 968 ∧
          write (answerMsg src dst (d.tpduResult transceive i w data).resp) =
            (answerMsg src dst (d.tpduResult transceive i w data).resp).length) := by
  rw [workerHandleTpdu_accepted ha]
  generalize d.tpduResult transceive i w data = r
  unfold Answered
  by_cases hrc : r.rc < 0
  · rw [if_pos hrc]
    exact ⟨fun _ => .inl hrc, fun _ => .inl hrc⟩
  · rw [if_neg hrc, ← fits_iff]
    have h0 : ¬(0 : ℤ) < 0 := Int.lt_irrefl 0
    by_cases hfit : (derTpduCardToModem dst src r.resp).length ≤ rsproTailroom
    · simp only [workerSendRspro_fits hfit, hrc, hfit, h0, false_or, true_and]
      constructor
      · intro h
        exact congrArg Write.result (List.cons.inj h).1
      · intro h
        show [Write.mk (answerMsg src dst r.resp) (write (answerMsg src dst r.resp))] = _
        rw [h]
    · simp only [workerSendRspro_long hfit, hrc, hfit, h0, false_or, false_and, iff_false]
      exact List.cons_ne_nil _ _ ∘ Eq.symm

/-- A worker with a card in slot 1 for the client slot 5, and its process. -/
def oneCard : Bankd where
  bank := ⟨1, 8⟩
  slotNames := []
  kiProxy := ⟨false, 0, [], 0, 0⟩
  slotmaps := Slotmaps.empty
  workers := [{ Worker.fresh with state := .connClientMappedCard, slot := ⟨1, 1⟩, clslot := ⟨5, 0⟩ }]
  pending := fun _ => []
  nextSlotIdx := 0
  serial := 0
  revoked := fun _ => none

/-- The worker of `oneCard`. -/
def cardWorker : Worker :=
  { Worker.fresh with state := .connClientMappedCard, slot := ⟨1, 1⟩, clslot := ⟨5, 0⟩ }

/-- A status word is sent to the client. -/
theorem statusWord_answered :
    Answered ⟨5, 0⟩ ⟨1, 1⟩ [0x90, 0x00]
      (oneCard.workerHandleTpduModemToCard (fun _ _ => ⟨0, [0x90, 0x00]⟩) (fun msg => msg.length)
        0 cardWorker ⟨5, 0⟩ ⟨1, 1⟩ [0xa0, 0xa4, 0x00, 0x00]) := by
  have ha : tpduAccepted cardWorker ⟨5, 0⟩ ⟨1, 1⟩ = true := by decide
  refine (answered_iff (d := oneCard) (w := cardWorker) ha).mpr (.inr ⟨?_, rfl⟩)
  decide +kernel

/-- A response of 1000 octets is dropped, and the session goes on. -/
theorem longResponse_dropped :
    oneCard.workerHandleTpduModemToCard (fun _ _ => ⟨0, List.replicate 1000 0⟩)
        (fun msg => msg.length) 0 cardWorker ⟨5, 0⟩ ⟨1, 1⟩ [0xa0, 0xb2, 0x00, 0x00] = (0, []) ∧
      ¬Answered ⟨5, 0⟩ ⟨1, 1⟩ (List.replicate 1000 0)
        (oneCard.workerHandleTpduModemToCard (fun _ _ => ⟨0, List.replicate 1000 0⟩)
          (fun msg => msg.length) 0 cardWorker ⟨5, 0⟩ ⟨1, 1⟩ [0xa0, 0xb2, 0x00, 0x00]) := by
  have ha : tpduAccepted cardWorker ⟨5, 0⟩ ⟨1, 1⟩ = true := by decide
  have hlong : ¬(derTpduCardToModem ⟨1, 1⟩ ⟨5, 0⟩ (List.replicate 1000 0)).length ≤
      rsproTailroom := by
    rw [fits_iff, List.length_replicate]
    omega
  have hrun : oneCard.workerHandleTpduModemToCard (fun _ _ => ⟨0, List.replicate 1000 0⟩)
      (fun msg => msg.length) 0 cardWorker ⟨5, 0⟩ ⟨1, 1⟩ [0xa0, 0xb2, 0x00, 0x00] = (0, []) := by
    rw [workerHandleTpdu_accepted ha, if_neg (by decide)]
    exact congrArg (Prod.mk 0) (workerSendRspro_long hlong)
  refine ⟨hrun, ?_⟩
  rw [hrun]
  rintro (h | h)
  · exact absurd h (by decide)
  · cases h

/-! ### The worker of the process -/

/-- Whether the answer has gone out, as the worker of the process sees it. -/
def answerWritten (r : ℤ × List Write) : Bool := r.2.any fun x => x.result = x.data.length

/-- **The handler of the process** is this one: the return code decides whether the session ends,
and the answer counts as sent when it was written completely. -/
theorem handleTpduModemToCard_eq (ha : tpduAccepted w src dst = true) (io : Io)
    (hw : io.write = answerWritten
      (d.workerHandleTpduModemToCard transceive write i w src dst data)) :
    w.handleTpduModemToCard src dst io
        (if (d.tpduResult transceive i w data).rc < 0 then none
          else some (d.tpduResult transceive i w data).resp) =
      if (d.workerHandleTpduModemToCard transceive write i w src dst data).1 < 0 then
        w.goto .recycle
      else
        (w.sendRspro (.tpduCardToModem dst src (d.tpduResult transceive i w data).resp)
          (answerWritten
            (d.workerHandleTpduModemToCard transceive write i w src dst data))).again := by
  rw [← hw, workerHandleTpdu_accepted ha]
  by_cases hrc : (d.tpduResult transceive i w data).rc < 0
  · simp only [if_pos hrc]
    rfl
  · simp only [if_neg hrc, Int.lt_irrefl, if_false]
    rfl

end Bankd

end Remsim
