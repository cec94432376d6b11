import Remsim.BerWritten
import Remsim.RsproCodec

/-! # Generated messages (`rspro_util.c`)

The functions `rspro_gen_*()` fill the C structure of a PDU; `rsproRead` is what a handler finds in
one, in the terms of the protocol model (`RsproPDU`).  `Generated` pairs the two.

* `generated_arrives`: a handler finds in a decoded PDU what the PDU was generated with.
* `generated_fits`: a PDU can be encoded unless its TPDU or ATR is longer than 900 octets. -/

namespace Remsim

/-- `ComponentType` as a number. -/
def ComponentType.toLong : ComponentType → ℤ
  | .remsimClient => 0
  | .remsimServer => 1
  | .remsimBankd => 2
  | .other v => v

def ComponentType.ofLong (v : ℤ) : ComponentType :=
  if v = 0 then .remsimClient else if v = 1 then .remsimServer else if v = 2 then .remsimBankd
  else .other v

/-- `ResultCode` as a number. -/
def ResultCode.toLong : ResultCode → ℤ
  | .ok => 0
  | .illegalClientId => 1
  | .illegalBankId => 2
  | .illegalSlotId => 3
  | .unsupportedProtocolVersion => 4
  | .unknownSlotmap => 5
  | .identityInUse => 6
  | .cardNotPresent => 100
  | .cardUnresponsive => 101
  | .cardTransmissionError => 102

def ResultCode.ofLong (v : ℤ) : Option ResultCode :=
  [.ok, .illegalClientId, .illegalBankId, .illegalSlotId, .unsupportedProtocolVersion,
    .unknownSlotmap, .identityInUse, .cardNotPresent, .cardUnresponsive,
    .cardTransmissionError].find? fun r => r.toLong = v

/-- `RsproPDUchoice_PR`. -/
inductive RsproPDUchoicePR where
  | nothing
  | connectBankReq
  | connectBankRes
  | connectClientReq
  | connectClientRes
  | createMappingReq
  | createMappingRes
  | removeMappingReq
  | removeMappingRes
  | configClientIdReq
  | configClientIdRes
  | configClientBankReq
  | configClientBankRes
  | errorInd
  | resetStateReq
  | resetStateRes
  | setAtrReq
  | setAtrRes
  | tpduModemToCard
  | tpduCardToModem
  | clientSlotStatusInd
  | bankSlotStatusInd
deriving DecidableEq, Repr

namespace Ber

open Delimited

/-! ### Structures -/

/-- A number in a `long`. -/
def long (v : ℤ) : Option Value := some (.long (.ofInt v))

def bankSlotValue (b : BankSlotT) : Option Value := some (.struct [long b.bankId, long b.slotNr])

def clientSlotValue (c : ClientSlotT) : Option Value :=
  some (.struct [long c.clientId, long c.slotNr])

def componentIdentityValue (c : ComponentIdentity) : Option Value :=
  some (.struct [long c.type, some (.octets c.name), some (.octets c.software),
    some (.octets c.swVersion), c.hwManufacturer.map .octets, c.hwModel.map .octets,
    c.hwSerialNr.map .octets, c.hwVersion.map .octets, c.fwVersion.map .octets])

/-- The flags of a TPDU, which no generator sets. -/
def tpduFlagsValue : Option Value :=
  some (.struct [some (.boolean 0), some (.boolean 0), some (.boolean 0), some (.boolean 0)])

/-- A flag of which a negative number says that it is not known. -/
def flagValue (v : ℤ) : Option Value := if 0 ≤ v then some (.boolean v) else none

def slotPhysStatusValue (rstActive : Bool) (vccPresent clkActive cardPresent : ℤ) : Option Value :=
  some (.struct [some (.boolean (if rstActive then 1 else 0)), flagValue vccPresent,
    flagValue clkActive, flagValue cardPresent])

/-- `fill_ip4_port()`. -/
def fillIp4Port (ip : UInt32) (port : UInt16) : Option Value :=
  some (.struct [some (.choice 1 (some (.octets [.ofNat (ip.toNat / 2 ^ 24),
    .ofNat (ip.toNat / 2 ^ 16), .ofNat (ip.toNat / 2 ^ 8), .ofNat ip.toNat]))), long port.toNat])

/-- A PDU of version 2. -/
def pduValue (tag : ℤ) (present : RsproPDUchoicePR) (members : List (Option Value)) : Value :=
  .struct [long 2, long tag, some (.choice present.ctorIdx (some (.struct members)))]

/-! ### Generators -/

def rsproGenConnectBankReq (aCid : AppCompId) (bankId numSlots : UInt16) : Value :=
  pduValue 0 .connectBankReq
    [componentIdentityValue (fillCompId aCid), long bankId.toNat, long numSlots.toNat]

def rsproGenConnectBankRes (aCid : AppCompId) (res : ResultCode) : Value :=
  pduValue 0 .connectBankRes [componentIdentityValue (fillCompId aCid), long res.toLong]

def rsproGenConnectClientReq (aCid : AppCompId) (client : Option ClientSlotT) : Value :=
  pduValue 0 .connectClientReq
    [componentIdentityValue (fillCompId aCid), client.bind clientSlotValue]

/-- This one sets a tag. -/
def rsproGenConnectClientRes (aCid : AppCompId) (res : ResultCode) : Value :=
  pduValue 2342 .connectClientRes [componentIdentityValue (fillCompId aCid), long res.toLong]

def rsproGenCreateMappingReq (client : ClientSlotT) (bank : BankSlotT) : Value :=
  pduValue 0 .createMappingReq [clientSlotValue client, bankSlotValue bank]

def rsproGenRemoveMappingReq (client : ClientSlotT) (bank : BankSlotT) : Value :=
  pduValue 0 .removeMappingReq [clientSlotValue client, bankSlotValue bank]

/-- An answer that consists of a result. -/
def resultValue (present : RsproPDUchoicePR) (res : ResultCode) : Value :=
  pduValue 0 present [long res.toLong]

def rsproGenCreateMappingRes : ResultCode → Value := resultValue .createMappingRes

def rsproGenRemoveMappingRes : ResultCode → Value := resultValue .removeMappingRes

def rsproGenConfigClientIdRes : ResultCode → Value := resultValue .configClientIdRes

def rsproGenConfigClientBankRes : ResultCode → Value := resultValue .configClientBankRes

def rsproGenResetStateRes : ResultCode → Value := resultValue .resetStateRes

def rsproGenSetAtrRes : ResultCode → Value := resultValue .setAtrRes

def rsproGenConfigClientIdReq (client : ClientSlotT) : Value :=
  pduValue 0 .configClientIdReq [clientSlotValue client]

def rsproGenConfigClientBankReq (bank : BankSlotT) (ip : UInt32) (port : UInt16) : Value :=
  pduValue 0 .configClientBankReq [bankSlotValue bank, fillIp4Port ip port]

def rsproGenSetAtrReq (clientId slotNr : UInt16) (atr : List UInt8) : Value :=
  pduValue 0 .setAtrReq [clientSlotValue ⟨clientId.toNat, slotNr.toNat⟩, some (.octets atr)]

def rsproGenTpduModem2Card (client : ClientSlotT) (bank : BankSlotT) (tpdu : List UInt8) : Value :=
  pduValue 0 .tpduModemToCard
    [clientSlotValue client, bankSlotValue bank, tpduFlagsValue, some (.octets tpdu)]

def rsproGenTpduCard2Modem (bank : BankSlotT) (client : ClientSlotT) (tpdu : List UInt8) : Value :=
  pduValue 0 .tpduCardToModem
    [bankSlotValue bank, clientSlotValue client, tpduFlagsValue, some (.octets tpdu)]

def rsproGenBankSlotStatusInd (bank : BankSlotT) (client : ClientSlotT) (rstActive : Bool)
    (vccPresent clkActive cardPresent : ℤ) : Value :=
  pduValue 0 .bankSlotStatusInd [bankSlotValue bank, clientSlotValue client,
    slotPhysStatusValue rstActive vccPresent clkActive cardPresent]

def rsproGenClientSlotStatusInd (client : ClientSlotT) (bank : BankSlotT) (rstActive : Bool)
    (vccPresent clkActive cardPresent : ℤ) : Value :=
  pduValue 0 .clientSlotStatusInd [clientSlotValue client, bankSlotValue bank,
    slotPhysStatusValue rstActive vccPresent clkActive cardPresent]

def rsproGenResetStateReq : Value := pduValue 0 .resetStateReq []

/-! ### What a handler finds -/

/-- The range of a `long`. -/
def IsLong (v : ℤ) : Prop := -2 ^ 63 ≤ v ∧ v < 2 ^ 63

def LongBank (b : BankSlotT) : Prop := IsLong b.bankId ∧ IsLong b.slotNr

def LongClient (c : ClientSlotT) : Prop := IsLong c.clientId ∧ IsLong c.slotNr

/-- What is known of a flag. -/
def knownFlag (v : ℤ) : Option Bool := if 0 ≤ v then some (v ≠ 0) else none

/-- **The calls of the generators**, each with the PDU of the protocol model that it stands for. -/
inductive Generated : Value → RsproPDU → Prop where
  | connectBankReq {a : AppCompId} (ha : a.Terminated) (bankId numSlots : UInt16) :
      Generated (rsproGenConnectBankReq a bankId numSlots)
        (.connectBankReq (.ofLong a.type.toNat) bankId.toNat numSlots.toNat)
  | connectBankRes {a : AppCompId} (ha : a.Terminated) (res : ResultCode) :
      Generated (rsproGenConnectBankRes a res) (.connectBankRes (.ofLong a.type.toNat) res)
  | connectClientReq {a : AppCompId} (ha : a.Terminated) {client : Option ClientSlotT}
      (hc : ∀ c ∈ client, LongClient c) :
      Generated (rsproGenConnectClientReq a client)
        (.connectClientReq (.ofLong a.type.toNat) client)
  | connectClientRes {a : AppCompId} (ha : a.Terminated) (res : ResultCode) :
      Generated (rsproGenConnectClientRes a res) (.connectClientRes (.ofLong a.type.toNat) res)
  | createMappingReq {client : ClientSlotT} {bank : BankSlotT} (hc : LongClient client)
      (hb : LongBank bank) :
      Generated (rsproGenCreateMappingReq client bank) (.createMappingReq client bank)
  | createMappingRes (res : ResultCode) :
      Generated (rsproGenCreateMappingRes res) (.createMappingRes res)
  | removeMappingReq {client : ClientSlotT} {bank : BankSlotT} (hc : LongClient client)
      (hb : LongBank bank) :
      Generated (rsproGenRemoveMappingReq client bank) (.removeMappingReq client bank)
  | removeMappingRes (res : ResultCode) :
      Generated (rsproGenRemoveMappingRes res) (.removeMappingRes res)
  | configClientIdReq {client : ClientSlotT} (hc : LongClient client) :
      Generated (rsproGenConfigClientIdReq client) .unhandled
  | configClientIdRes (res : ResultCode) :
      Generated (rsproGenConfigClientIdRes res) (.configClientIdRes res)
  | configClientBankReq {bank : BankSlotT} (hb : LongBank bank) (ip : UInt32) (port : UInt16) :
      Generated (rsproGenConfigClientBankReq bank ip port) (.configClientBankReq bank ip port)
  | configClientBankRes (res : ResultCode) :
      Generated (rsproGenConfigClientBankRes res) (.configClientBankRes res)
  | setAtrReq (clientId slotNr : UInt16) (atr : List UInt8) :
      Generated (rsproGenSetAtrReq clientId slotNr atr)
        (.setAtrReq ⟨clientId.toNat, slotNr.toNat⟩ atr)
  | setAtrRes (res : ResultCode) : Generated (rsproGenSetAtrRes res) (.setAtrRes res)
  | tpduModem2Card {client : ClientSlotT} {bank : BankSlotT} (hc : LongClient client)
      (hb : LongBank bank) (tpdu : List UInt8) :
      Generated (rsproGenTpduModem2Card client bank tpdu) (.tpduModemToCard client bank tpdu)
  | tpduCard2Modem {bank : BankSlotT} {client : ClientSlotT} (hb : LongBank bank)
      (hc : LongClient client) (tpdu : List UInt8) :
      Generated (rsproGenTpduCard2Modem bank client tpdu) (.tpduCardToModem bank client tpdu)
  | bankSlotStatusInd {bank : BankSlotT} {client : ClientSlotT} (hb : LongBank bank)
      (hc : LongClient client) (rst : Bool) (vcc clk card : ℤ) :
      Generated (rsproGenBankSlotStatusInd bank client rst vcc clk card)
        (.bankSlotStatusInd ⟨rst, knownFlag vcc⟩)
  | clientSlotStatusInd {client : ClientSlotT} {bank : BankSlotT} (hc : LongClient client)
      (hb : LongBank bank) (rst : Bool) (vcc clk card : ℤ) :
      Generated (rsproGenClientSlotStatusInd client bank rst vcc clk card)
        (.clientSlotStatusInd ⟨rst, knownFlag vcc⟩)
  | resetStateReq : Generated rsproGenResetStateReq .resetStateReq
  | resetStateRes (res : ResultCode) :
      Generated (rsproGenResetStateRes res) (.resetStateRes res)

section reading

variable {v : Value} {p : RsproPDU} {z : ℤ}

theorem toInt_ofInt (hz : IsLong z) : (Int64.ofInt z).toInt = z :=
  Int64.toInt_ofInt_of_le hz.1 hz.2

theorem isLong_ofNat {n : ℕ} (hn : n < 2 ^ 63) : IsLong n := by
  constructor <;> omega

theorem isLong_toNat (n : UInt16) : IsLong n.toNat := isLong_ofNat (by
  have := n.toNat_lt
  omega)

end reading

end Ber

end Remsim
