import Remsim.Slotmap

/-! # RSPRO protocol data units (`RSPRO.asn`, `rspro_util.c`)

Decoded PDUs as the handlers of the server, the bankd and the client see them.  The ASN.1 integers
are the C `long` the BER decoder delivers, which does not check the value ranges of the
specification, so slots in a PDU hold integers; `rspro2bankSlot` and `rspro2clientSlot` truncate
them to the 16-bit fields of the slot structures.  Of a component identity only the type is read by
any modelled function.  The operation tag is left out: neither side reads it. -/

namespace Remsim

/-- `ComponentType`; values outside the enumeration are decoded as they are. -/
inductive ComponentType where
  | remsimClient
  | remsimServer
  | remsimBankd
  | other (v : ℤ)
deriving DecidableEq, Repr

/-- `ResultCode`. -/
inductive ResultCode where
  | ok
  | illegalClientId
  | illegalBankId
  | illegalSlotId
  | unsupportedProtocolVersion
  | unknownSlotmap
  | identityInUse
  | cardNotPresent
  | cardUnresponsive
  | cardTransmissionError
deriving DecidableEq, Repr

/-- `BankSlot_t`. -/
structure BankSlotT where
  bankId : ℤ
  slotNr : ℤ
deriving DecidableEq, Repr

/-- `ClientSlot_t`. -/
structure ClientSlotT where
  clientId : ℤ
  slotNr : ℤ
deriving DecidableEq, Repr

/-- `SlotPhysStatus` (the clock and card presence flags are only logged). -/
structure SlotPhysStatus where
  resetActive : Bool
  vccPresent : Option Bool
deriving DecidableEq, Repr

/-- The alternatives of `RsproPDUchoice` that a modelled function sends or handles; `unhandled`
stands for all others. -/
inductive RsproPDU where
  | connectBankReq (identity : ComponentType) (bankId numberOfSlots : ℤ)
  | connectBankRes (identity : ComponentType) (result : ResultCode)
  | connectClientReq (identity : ComponentType) (clientSlot : Option ClientSlotT)
  | connectClientRes (identity : ComponentType) (result : ResultCode)
  | createMappingReq (client : ClientSlotT) (bank : BankSlotT)
  | createMappingRes (result : ResultCode)
  | removeMappingReq (client : ClientSlotT) (bank : BankSlotT)
  | removeMappingRes (result : ResultCode)
  | configClientIdRes (result : ResultCode)
  | configClientBankReq (bankSlot : BankSlotT) (ip : UInt32) (port : UInt16)
  | configClientBankRes (result : ResultCode)
  | resetStateReq
  | resetStateRes (result : ResultCode)
  | setAtrReq (slot : ClientSlotT) (atr : List UInt8)
  | setAtrRes (result : ResultCode)
  | tpduModemToCard (fromClientSlot : ClientSlotT) (toBankSlot : BankSlotT) (data : List UInt8)
  | tpduCardToModem (fromBankSlot : BankSlotT) (toClientSlot : ClientSlotT) (data : List UInt8)
  | clientSlotStatusInd (status : SlotPhysStatus)
  | bankSlotStatusInd (status : SlotPhysStatus)
  | unhandled
deriving DecidableEq, Repr

/-- `rspro2bank_slot()`. -/
def rspro2bankSlot (b : BankSlotT) : BankSlot := ⟨.ofInt b.bankId, .ofInt b.slotNr⟩

/-- `bank_slot2rspro()`. -/
def bankSlot2rspro (b : BankSlot) : BankSlotT := ⟨b.bankId.toNat, b.slotNr.toNat⟩

/-- `rspro2client_slot()`. -/
def rspro2clientSlot (c : ClientSlotT) : ClientSlot := ⟨.ofInt c.clientId, .ofInt c.slotNr⟩

/-- `client_slot2rspro()`. -/
def clientSlot2rspro (c : ClientSlot) : ClientSlotT := ⟨c.clientId.toNat, c.slotNr.toNat⟩

theorem ofInt_toNat (n : UInt16) : UInt16.ofInt (n.toNat : ℤ) = n := by
  have h : ((n.toNat : ℤ) % 2 ^ 16).toNat = n.toNat := by
    have := n.toNat_lt
    omega
  rw [UInt16.ofInt, h, UInt16.ofNat_toNat]

@[simp] theorem rspro2bankSlot_bankSlot2rspro (b : BankSlot) :
    rspro2bankSlot (bankSlot2rspro b) = b := by
  cases b
  simp only [rspro2bankSlot, bankSlot2rspro, ofInt_toNat]

@[simp] theorem rspro2clientSlot_clientSlot2rspro (c : ClientSlot) :
    rspro2clientSlot (clientSlot2rspro c) = c := by
  cases c
  simp only [rspro2clientSlot, clientSlot2rspro, ofInt_toNat]

/-- `slotmap2CreateMappingReq()`. -/
def slotmap2CreateMappingReq (x : SlotMapping) : RsproPDU :=
  .createMappingReq (clientSlot2rspro x.client) (bankSlot2rspro x.bank)

/-- `slotmap2RemoveMappingReq()`. -/
def slotmap2RemoveMappingReq (x : SlotMapping) : RsproPDU :=
  .removeMappingReq (clientSlot2rspro x.client) (bankSlot2rspro x.bank)

end Remsim
