import Remsim.BerChoice

/-! # The types of RSPRO (`src/rspro/*.c`)

The tables that the ASN.1 compiler has generated, one descriptor for each type.  A `Codec` is a
descriptor together with the proof that its functions do what the type is for, so that a table
in which a member could not be found is not a value here; what has to be checked about a table is
decided by computation.  Constraints are left out: neither the decoder nor the encoder looks at
them.

`stack` is the number of nested lengths that `ber_skip_length()` follows before it gives up. -/

namespace Remsim.Ber

open Delimited

/-! ### Descriptors that do what they are for -/

/-- **A type of the tables**; without an explicit tag around it, its decoder always comes back. -/
structure Codec where
  descriptor : TypeDescriptor
  type : BerType
  admits : ∀ m t, Decidable (type.Admits m t)
  implements : Implements descriptor type
  returns : ∀ m t, type.Admits m t → m ≠ .explicit → Returns (descriptor.berDecoder m)

instance (c : Codec) (m : TagMode) (t : ℕ) : Decidable (c.type.Admits m t) := c.admits m t

/-- An entry of a member table. -/
structure Field where
  pointerFlag : Bool
  optional : ℕ
  tag : ℕ
  tagMode : TagMode
  codec : Codec

/-- `ATF_NOFLAGS`, a member that is always there. -/
def Field.noFlags (tag : ℕ) (tagMode : TagMode) (codec : Codec) : Field :=
  ⟨false, 0, tag, tagMode, codec⟩

/-- `ATF_POINTER`, the first of some optional members. -/
def Field.pointer (optional tag : ℕ) (tagMode : TagMode) (codec : Codec) : Field :=
  ⟨true, optional, tag, tagMode, codec⟩

/-- The entry as the decoder reads it, with what its type is for. -/
def Field.member (f : Field) : Member × BerType :=
  (⟨f.pointerFlag, f.optional, f.tag, f.tagMode, f.codec.descriptor⟩, f.codec.type)

/-- A member table with what its types are for. -/
def table (fields : List Field) : Members := fields.map Field.member

/-- Every type is tagged in a way that it admits. -/
def Tagged (fields : List Field) : Prop := ∀ f ∈ fields, f.codec.type.Admits f.tagMode f.tag

/-- No member has an explicit tag. -/
def Plain (fields : List Field) : Prop := ∀ f ∈ fields, f.tagMode ≠ .explicit

instance (fields : List Field) : Decidable (Tagged fields) :=
  inferInstanceAs (Decidable (∀ f ∈ _, _))

instance (fields : List Field) : Decidable (Plain fields) :=
  inferInstanceAs (Decidable (∀ f ∈ _, _))

instance : ∀ (m : TagMode) (t : ℕ), Decidable (SingleTag m t)
  | .default, _ => inferInstanceAs (Decidable True)
  | .implicit, t => inferInstanceAs (Decidable (IsTag t))
  | .explicit, _ => inferInstanceAs (Decidable False)

section codecs

variable {stack own : ℕ} {fields : List Field}

theorem table_implements : ∀ e ∈ table fields, Implements e.1.type e.2 := by
  intro e he
  obtain ⟨f, -, rfl⟩ := List.mem_map.mp he
  exact f.codec.implements

theorem table_admits (h : Tagged fields) : ∀ e ∈ table fields, e.2.Admits e.1.tagMode e.1.tag := by
  intro e he
  obtain ⟨f, hf, rfl⟩ := List.mem_map.mp he
  exact h f hf

theorem table_returns (h : Tagged fields) (hp : Plain fields) :
    ∀ e ∈ table fields, Returns (e.1.type.berDecoder e.1.tagMode) := by
  intro e he
  obtain ⟨f, hf, rfl⟩ := List.mem_map.mp he
  exact f.codec.returns f.tagMode f.tag (h f hf) (hp f hf)

end codecs

/-- INTEGER and ENUMERATED types in a `long`. -/
def Codec.integer (own : ℕ) (hown : IsTag own) : Codec where
  descriptor := nativeInteger [own]
  type := .integer own
  admits := fun m t => inferInstanceAs (Decidable (SingleTag m t))
  implements := nativeInteger_implements hown
  returns := fun m _ _ _ => returns_nativeInteger _ m

/-- BOOLEAN. -/
def Codec.boolean (own : ℕ) (hown : IsTag own) : Codec where
  descriptor := Ber.boolean [own]
  type := .boolean own
  admits := fun m t => inferInstanceAs (Decidable (SingleTag m t))
  implements := boolean_implements hown
  returns := fun m _ _ _ => returns_boolean _ m

/-- OCTET STRING and IA5String. -/
def Codec.octetString (own : ℕ) (hown : IsTag own) : Codec where
  descriptor := Ber.octetString [own]
  type := .octetString own
  admits := fun m t => inferInstanceAs (Decidable (SingleTag m t))
  implements := octetString_implements hown
  returns := fun m _ _ _ => returns_octetString _ m

/-- SEQUENCE, given its tables. -/
def Codec.sequence (stack own : ℕ) (fields : List Field) (specs : SequenceSpecs) (hown : IsTag own)
    (h : SequenceOk (table fields) specs ∧ Tagged fields ∧ Plain fields) : Codec where
  descriptor := Ber.sequence stack [own] (table fields).elements specs
  type := .sequence stack own (table fields) specs
  admits := fun m t => inferInstanceAs (Decidable (SingleTag m t))
  implements := sequence_implements hown h.1 table_implements (table_admits h.2.1)
  returns := fun m _ _ _ => returns_sequence _ m (table_returns h.2.1 h.2.2)

/-- CHOICE, given its tables. -/
def Codec.choice (stack : ℕ) (fields : List Field) (specs : ChoiceSpecs)
    (h : ChoiceOk (table fields) specs ∧ Tagged fields ∧ Plain fields) : Codec where
  descriptor := Ber.choice stack [] (table fields).elements specs
  type := .choice stack (table fields) specs
  admits := fun m t => inferInstanceAs (Decidable (m = .default ∨ (m = .explicit ∧ IsTag t)))
  implements := choice_implements h.1 table_implements (table_admits h.2.1)
  returns := by
    rintro m t (rfl | ⟨rfl, -⟩) hm
    · exact returns_choice (table_returns h.2.1 h.2.2)
    · exact absurd rfl hm

/-! ### Simple types -/

/-- `ASN_TAG_CLASS_UNIVERSAL | (n << 2)`. -/
def universal (n : ℕ) : ℕ := 4 * n

/-- `ASN_TAG_CLASS_CONTEXT | (n << 2)`. -/
def context (n : ℕ) : ℕ := 4 * n + 2

def asnDefNativeInteger : Codec := .integer (universal 2) (by decide)

def asnDefBoolean : Codec := .boolean (universal 1) (by decide)

def asnDefOctetString : Codec := .octetString (universal 4) (by decide)

def asnDefOperationTag : Codec := .integer (universal 2) (by decide)

def asnDefBankId : Codec := .integer (universal 2) (by decide)

def asnDefClientId : Codec := .integer (universal 2) (by decide)

def asnDefSlotNumber : Codec := .integer (universal 2) (by decide)

def asnDefPortNumber : Codec := .integer (universal 2) (by decide)

def asnDefComponentType : Codec := .integer (universal 10) (by decide)

def asnDefResultCode : Codec := .integer (universal 10) (by decide)

def asnDefErrorSeverity : Codec := .integer (universal 10) (by decide)

def asnDefErrorCode : Codec := .integer (universal 10) (by decide)

def asnDefComponentName : Codec := .octetString (universal 22) (by decide)

def asnDefErrorString : Codec := .octetString (universal 22) (by decide)

def asnDefATR : Codec := .octetString (universal 4) (by decide)

def asnDefIpv4Address : Codec := .octetString (universal 4) (by decide)

def asnDefIpv6Address : Codec := .octetString (universal 4) (by decide)

/-! ### Parts of messages

The entries of the tables stand in the order of the source. -/

section tables

variable (stack : ℕ)

def asnDefComponentIdentity : Codec := .sequence stack (universal 16)
  [.noFlags (universal 10) .default asnDefComponentType,
    .noFlags (universal 22) .default asnDefComponentName,
    .noFlags (context 0) .implicit asnDefComponentName,
    .noFlags (context 1) .implicit asnDefComponentName,
    .pointer 5 (context 2) .implicit asnDefComponentName,
    .pointer 4 (context 3) .implicit asnDefComponentName,
    .pointer 3 (context 4) .implicit asnDefComponentName,
    .pointer 2 (context 5) .implicit asnDefComponentName,
    .pointer 1 (context 6) .implicit asnDefComponentName]
  ⟨[⟨universal 10, 0, 0, 0⟩, ⟨universal 22, 1, 0, 0⟩, ⟨context 0, 2, 0, 0⟩,
      ⟨context 1, 3, 0, 0⟩, ⟨context 2, 4, 0, 0⟩, ⟨context 3, 5, 0, 0⟩, ⟨context 4, 6, 0, 0⟩,
      ⟨context 5, 7, 0, 0⟩, ⟨context 6, 8, 0, 0⟩], 8, 10⟩ (by decide) (of_decide_eq_true rfl)

def asnDefBankSlot : Codec := .sequence stack (universal 16)
  [.noFlags (universal 2) .default asnDefBankId,
    .noFlags (universal 2) .default asnDefSlotNumber]
  ⟨[⟨universal 2, 0, 0, 1⟩, ⟨universal 2, 1, -1, 0⟩], 1, 3⟩ (by decide) (of_decide_eq_true rfl)

def asnDefClientSlot : Codec := .sequence stack (universal 16)
  [.noFlags (universal 2) .default asnDefClientId,
    .noFlags (universal 2) .default asnDefSlotNumber]
  ⟨[⟨universal 2, 0, 0, 1⟩, ⟨universal 2, 1, -1, 0⟩], 1, 3⟩ (by decide) (of_decide_eq_true rfl)

def asnDefIpAddress : Codec := .choice stack
  [.noFlags (context 0) .implicit asnDefIpv4Address,
    .noFlags (context 1) .implicit asnDefIpv6Address]
  ⟨[⟨context 0, 0, 0, 0⟩, ⟨context 1, 1, 0, 0⟩], -1⟩ (of_decide_eq_true rfl)

def asnDefIpPort : Codec := .sequence stack (universal 16)
  [.noFlags ambiguousTag .default (asnDefIpAddress stack),
    .noFlags (universal 2) .default asnDefPortNumber]
  ⟨[⟨universal 2, 1, 0, 0⟩, ⟨context 0, 0, 0, 0⟩, ⟨context 1, 0, 0, 0⟩], -1, -1⟩
  (by decide) (of_decide_eq_true rfl)

def asnDefTpduFlags : Codec := .sequence stack (universal 16)
  [.noFlags (universal 1) .default asnDefBoolean,
    .noFlags (universal 1) .default asnDefBoolean,
    .noFlags (universal 1) .default asnDefBoolean,
    .noFlags (universal 1) .default asnDefBoolean]
  ⟨[⟨universal 1, 0, 0, 3⟩, ⟨universal 1, 1, -1, 2⟩, ⟨universal 1, 2, -2, 1⟩,
      ⟨universal 1, 3, -3, 0⟩], 3, 5⟩ (by decide) (of_decide_eq_true rfl)

def asnDefSlotPhysStatus : Codec := .sequence stack (universal 16)
  [.noFlags (context 0) .implicit asnDefBoolean,
    .pointer 3 (context 1) .implicit asnDefBoolean,
    .pointer 2 (context 2) .implicit asnDefBoolean,
    .pointer 1 (context 3) .implicit asnDefBoolean]
  ⟨[⟨context 0, 0, 0, 0⟩, ⟨context 1, 1, 0, 0⟩, ⟨context 2, 2, 0, 0⟩, ⟨context 3, 3, 0, 0⟩], 3, 5⟩
  (by decide) (of_decide_eq_true rfl)

/-! ### Messages -/

/-- An answer that consists of a result. -/
def resultOnly : Codec := .sequence stack (universal 16)
  [.noFlags (universal 10) .default asnDefResultCode]
  ⟨[⟨universal 10, 0, 0, 0⟩], 0, 2⟩ (by decide) (of_decide_eq_true rfl)

def asnDefConnectBankReq : Codec := .sequence stack (universal 16)
  [.noFlags (universal 16) .default (asnDefComponentIdentity stack),
    .noFlags (universal 2) .default asnDefBankId,
    .noFlags (universal 2) .default asnDefSlotNumber]
  ⟨[⟨universal 2, 1, 0, 1⟩, ⟨universal 2, 2, -1, 0⟩, ⟨universal 16, 0, 0, 0⟩], 2, 4⟩
  (by decide) (of_decide_eq_true rfl)

def asnDefConnectBankRes : Codec := .sequence stack (universal 16)
  [.noFlags (universal 16) .default (asnDefComponentIdentity stack),
    .noFlags (universal 10) .default asnDefResultCode]
  ⟨[⟨universal 10, 1, 0, 0⟩, ⟨universal 16, 0, 0, 0⟩], 1, 3⟩ (by decide) (of_decide_eq_true rfl)

def asnDefConnectClientReq : Codec := .sequence stack (universal 16)
  [.noFlags (universal 16) .default (asnDefComponentIdentity stack),
    .pointer 1 (universal 16) .default (asnDefClientSlot stack)]
  ⟨[⟨universal 16, 0, 0, 1⟩, ⟨universal 16, 1, -1, 0⟩], 1, 3⟩ (by decide) (of_decide_eq_true rfl)

def asnDefConnectClientRes : Codec := .sequence stack (universal 16)
  [.noFlags (universal 16) .default (asnDefComponentIdentity stack),
    .noFlags (universal 10) .default asnDefResultCode]
  ⟨[⟨universal 10, 1, 0, 0⟩, ⟨universal 16, 0, 0, 0⟩], 1, 3⟩ (by decide) (of_decide_eq_true rfl)

def asnDefCreateMappingReq : Codec := .sequence stack (universal 16)
  [.noFlags (universal 16) .default (asnDefClientSlot stack),
    .noFlags (universal 16) .default (asnDefBankSlot stack)]
  ⟨[⟨universal 16, 0, 0, 1⟩, ⟨universal 16, 1, -1, 0⟩], 1, 3⟩ (by decide) (of_decide_eq_true rfl)

def asnDefCreateMappingRes : Codec := resultOnly stack

def asnDefRemoveMappingReq : Codec := .sequence stack (universal 16)
  [.noFlags (universal 16) .default (asnDefClientSlot stack),
    .noFlags (universal 16) .default (asnDefBankSlot stack)]
  ⟨[⟨universal 16, 0, 0, 1⟩, ⟨universal 16, 1, -1, 0⟩], 1, 3⟩ (by decide) (of_decide_eq_true rfl)

def asnDefRemoveMappingRes : Codec := resultOnly stack

def asnDefConfigClientIdReq : Codec := .sequence stack (universal 16)
  [.noFlags (universal 16) .default (asnDefClientSlot stack)]
  ⟨[⟨universal 16, 0, 0, 0⟩], 0, 2⟩ (by decide) (of_decide_eq_true rfl)

def asnDefConfigClientIdRes : Codec := resultOnly stack

def asnDefConfigClientBankReq : Codec := .sequence stack (universal 16)
  [.noFlags (universal 16) .default (asnDefBankSlot stack),
    .noFlags (universal 16) .default (asnDefIpPort stack)]
  ⟨[⟨universal 16, 0, 0, 1⟩, ⟨universal 16, 1, -1, 0⟩], 1, 3⟩ (by decide) (of_decide_eq_true rfl)

def asnDefConfigClientBankRes : Codec := resultOnly stack

def asnDefErrorInd : Codec := .sequence stack (universal 16)
  [.noFlags (universal 10) .default asnDefComponentType,
    .noFlags (universal 10) .default asnDefErrorSeverity,
    .noFlags (universal 10) .default asnDefErrorCode,
    .pointer 3 (context 0) .implicit (asnDefBankSlot stack),
    .pointer 2 (context 1) .implicit (asnDefClientSlot stack),
    .pointer 1 (context 2) .implicit asnDefErrorString]
  ⟨[⟨universal 10, 0, 0, 2⟩, ⟨universal 10, 1, -1, 1⟩, ⟨universal 10, 2, -2, 0⟩,
      ⟨context 0, 3, 0, 0⟩, ⟨context 1, 4, 0, 0⟩, ⟨context 2, 5, 0, 0⟩], 5, 7⟩
  (by decide) (of_decide_eq_true rfl)

def asnDefResetStateReq : Codec := .sequence stack (universal 16) []
  ⟨[], -1, -1⟩ (by decide) (of_decide_eq_true rfl)

def asnDefResetStateRes : Codec := resultOnly stack

def asnDefSetAtrReq : Codec := .sequence stack (universal 16)
  [.noFlags (universal 16) .default (asnDefClientSlot stack),
    .noFlags (universal 4) .default asnDefATR]
  ⟨[⟨universal 4, 1, 0, 0⟩, ⟨universal 16, 0, 0, 0⟩], 1, 3⟩ (by decide) (of_decide_eq_true rfl)

def asnDefSetAtrRes : Codec := resultOnly stack

def asnDefTpduModemToCard : Codec := .sequence stack (universal 16)
  [.noFlags (universal 16) .default (asnDefClientSlot stack),
    .noFlags (universal 16) .default (asnDefBankSlot stack),
    .noFlags (universal 16) .default (asnDefTpduFlags stack),
    .noFlags (universal 4) .default asnDefOctetString]
  ⟨[⟨universal 4, 3, 0, 0⟩, ⟨universal 16, 0, 0, 2⟩, ⟨universal 16, 1, -1, 1⟩,
      ⟨universal 16, 2, -2, 0⟩], 3, 5⟩ (by decide) (of_decide_eq_true rfl)

def asnDefTpduCardToModem : Codec := .sequence stack (universal 16)
  [.noFlags (universal 16) .default (asnDefBankSlot stack),
    .noFlags (universal 16) .default (asnDefClientSlot stack),
    .noFlags (universal 16) .default (asnDefTpduFlags stack),
    .noFlags (universal 4) .default asnDefOctetString]
  ⟨[⟨universal 4, 3, 0, 0⟩, ⟨universal 16, 0, 0, 2⟩, ⟨universal 16, 1, -1, 1⟩,
      ⟨universal 16, 2, -2, 0⟩], 3, 5⟩ (by decide) (of_decide_eq_true rfl)

def asnDefClientSlotStatusInd : Codec := .sequence stack (universal 16)
  [.noFlags (universal 16) .default (asnDefClientSlot stack),
    .noFlags (universal 16) .default (asnDefBankSlot stack),
    .noFlags (universal 16) .default (asnDefSlotPhysStatus stack)]
  ⟨[⟨universal 16, 0, 0, 2⟩, ⟨universal 16, 1, -1, 1⟩, ⟨universal 16, 2, -2, 0⟩], 2, 4⟩
  (by decide) (of_decide_eq_true rfl)

def asnDefBankSlotStatusInd : Codec := .sequence stack (universal 16)
  [.noFlags (universal 16) .default (asnDefBankSlot stack),
    .noFlags (universal 16) .default (asnDefClientSlot stack),
    .noFlags (universal 16) .default (asnDefSlotPhysStatus stack)]
  ⟨[⟨universal 16, 0, 0, 2⟩, ⟨universal 16, 1, -1, 1⟩, ⟨universal 16, 2, -2, 0⟩], 2, 4⟩
  (by decide) (of_decide_eq_true rfl)

/-! ### The protocol data unit -/

def rsproPDUchoiceFields : List Field :=
  [.noFlags (context 0) .implicit (asnDefConnectBankReq stack),
    .noFlags (context 1) .implicit (asnDefConnectBankRes stack),
    .noFlags (context 2) .implicit (asnDefConnectClientReq stack),
    .noFlags (context 3) .implicit (asnDefConnectClientRes stack),
    .noFlags (context 4) .implicit (asnDefCreateMappingReq stack),
    .noFlags (context 5) .implicit (asnDefCreateMappingRes stack),
    .noFlags (context 6) .implicit (asnDefRemoveMappingReq stack),
    .noFlags (context 7) .implicit (asnDefRemoveMappingRes stack),
    .noFlags (context 8) .implicit (asnDefConfigClientIdReq stack),
    .noFlags (context 9) .implicit (asnDefConfigClientIdRes stack),
    .noFlags (context 17) .implicit (asnDefConfigClientBankReq stack),
    .noFlags (context 18) .implicit (asnDefConfigClientBankRes stack),
    .noFlags (context 16) .implicit (asnDefErrorInd stack),
    .noFlags (context 19) .implicit (asnDefResetStateReq stack),
    .noFlags (context 20) .implicit (asnDefResetStateRes stack),
    .noFlags (context 10) .implicit (asnDefSetAtrReq stack),
    .noFlags (context 11) .implicit (asnDefSetAtrRes stack),
    .noFlags (context 12) .implicit (asnDefTpduModemToCard stack),
    .noFlags (context 13) .implicit (asnDefTpduCardToModem stack),
    .noFlags (context 14) .implicit (asnDefClientSlotStatusInd stack),
    .noFlags (context 15) .implicit (asnDefBankSlotStatusInd stack)]

def rsproPDUchoiceSpecs : ChoiceSpecs :=
  ⟨[⟨context 0, 0, 0, 0⟩, ⟨context 1, 1, 0, 0⟩, ⟨context 2, 2, 0, 0⟩, ⟨context 3, 3, 0, 0⟩,
      ⟨context 4, 4, 0, 0⟩, ⟨context 5, 5, 0, 0⟩, ⟨context 6, 6, 0, 0⟩, ⟨context 7, 7, 0, 0⟩,
      ⟨context 8, 8, 0, 0⟩, ⟨context 9, 9, 0, 0⟩, ⟨context 10, 15, 0, 0⟩,
      ⟨context 11, 16, 0, 0⟩, ⟨context 12, 17, 0, 0⟩, ⟨context 13, 18, 0, 0⟩,
      ⟨context 14, 19, 0, 0⟩, ⟨context 15, 20, 0, 0⟩, ⟨context 16, 12, 0, 0⟩,
      ⟨context 17, 10, 0, 0⟩, ⟨context 18, 11, 0, 0⟩, ⟨context 19, 13, 0, 0⟩,
      ⟨context 20, 14, 0, 0⟩], 21⟩

def asnDefRsproPDUchoice : Codec :=
  .choice stack (rsproPDUchoiceFields stack) rsproPDUchoiceSpecs (of_decide_eq_true rfl)

def rsproPDUFields : List Field :=
  [.noFlags (context 0) .implicit asnDefNativeInteger,
    .noFlags (context 1) .implicit asnDefOperationTag,
    .noFlags (context 2) .explicit (asnDefRsproPDUchoice stack)]

def rsproPDUSpecs : SequenceSpecs :=
  ⟨[⟨context 0, 0, 0, 0⟩, ⟨context 1, 1, 0, 0⟩, ⟨context 2, 2, 0, 0⟩], -1, -1⟩

def asnDefRsproPDU : TypeDescriptor :=
  sequence stack [universal 16] (table (rsproPDUFields stack)).elements rsproPDUSpecs

/-- What the protocol data unit is for. -/
def BerType.rsproPDU : BerType :=
  .sequence stack (universal 16) (table (rsproPDUFields stack)) rsproPDUSpecs

theorem rsproPDU_ok :
    SequenceOk (table (rsproPDUFields stack)) rsproPDUSpecs ∧ Tagged (rsproPDUFields stack) :=
  of_decide_eq_true rfl

/-- **The tables of RSPRO.** -/
theorem rsproPDU_implements : Implements (asnDefRsproPDU stack) (.rsproPDU stack) :=
  sequence_implements (by decide) (rsproPDU_ok stack).1 table_implements
    (table_admits (rsproPDU_ok stack).2)

end tables

end Remsim.Ber
