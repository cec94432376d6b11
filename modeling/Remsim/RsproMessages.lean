import Remsim.RsproGen

/-! # Generated messages on the wire

The encoding of a generated PDU is built from `Der.tlv`, as the encoding of an answer is in
`derTpduCardToModem`, which is one of them (`rsproEncMsg_tpduCard2Modem`).

* `generated_eq_none_iff`: a PDU is not encoded when its TPDU or its ATR is too long for the buffer.
* `generated_arrives`: a handler finds in a decoded message what it was generated with. -/

namespace Remsim

/-- The size of a PDU with a TPDU or an ATR that is long. -/
def RsproPDU.longSize : RsproPDU → ℕ
  | .tpduModemToCard client bank data => data.length + slotOctets bank client + 48
  | .tpduCardToModem bank client data => data.length + slotOctets bank client + 48
  | .setAtrReq slot atr => atr.length + ((Der.integerOctets slot.clientId).length +
      (Der.integerOctets slot.slotNr).length) + 28
  | _ => 0

namespace Ber

open Delimited CString

/-! ### The octets of a PDU -/

/-- A PDU of version 2, given its tag, the identifier octet of the alternative and the members. -/
def pduOctets (tag : ℤ) (alternative : UInt8) (members : List UInt8) : List UInt8 :=
  Der.tlv 0x30 (Der.integer 0x80 2 ++
    (Der.integer 0x81 tag ++ Der.tlv 0xa2 (Der.tlv alternative members)))

section octets

variable {stack own t : ℕ} {m : TagMode} {fields : List Field} {f : Field} {v : Value}
  {st : List (Option Value)} {b₁ b₂ body : List UInt8} {z : ℤ}

theorem written_cons (he : Emits (f.codec.descriptor.derEncoder v f.tagMode f.tag) b₁)
    (hw : Written (table fields).elements st b₂) :
    Written (table (f :: fields)).elements (some v :: st) (b₁ ++ b₂) :=
  ⟨b₁, b₂, rfl, he, hw⟩

theorem written_last (he : Emits (f.codec.descriptor.derEncoder v f.tagMode f.tag) body) :
    Written (table [f]).elements [some v] body :=
  ⟨body, [], (List.append_nil body).symm, he, rfl⟩

theorem ownTag (n : ℕ) : SingleTag .default (universal n) := trivial

theorem lowTag {n : ℕ} (hn : n < 31) : LowTag (outerTag (universal n) .default (universal n)) := by
  show 4 * n / 4 ≤ 30
  omega

theorem emits_long (hm : SingleTag m t) (ht : LowTag (outerTag own m t)) (hz : IsLong z) :
    Emits ((nativeInteger [own]).derEncoder (.long (.ofInt z)) m t)
      (Der.integer (identifierOctet false (outerTag own m t)) z) := by
  have := emits_integer hm ht (.ofInt z)
  rwa [toInt_ofInt hz] at this

/-- **A PDU whose members are written.** -/
theorem emits_pdu {present : RsproPDUchoicePR} {i tag : ℕ} {specs : SequenceSpecs}
    {hown : IsTag own} {h : SequenceOk (table fields) specs ∧ Tagged fields ∧ Plain fields}
    (hi : present.ctorIdx = i + 1)
    (hf : (rsproPDUchoiceFields stack)[i]? =
      some (.noFlags tag .implicit (.sequence stack own fields specs hown h)))
    (htag : IsTag tag ∧ LowTag tag) (hz : IsLong z)
    (hw : Written (table fields).elements st body) :
    Emits ((asnDefRsproPDU stack).derEncoder (pduValue z present st) .default 0)
      (pduOctets z (identifierOctet true tag) body) := by
  have halt : Emits ((asnDefRsproPDUchoice stack).descriptor.derEncoder
      (.choice present.ctorIdx (some (.struct st))) .explicit (context 2))
      (Der.tlv 0xa2 (Der.tlv (identifierOctet true tag) body)) := by
    have he : (table (rsproPDUchoiceFields stack))[i]? =
        some (Field.noFlags tag .implicit (.sequence stack own fields specs hown h)).member := by
      rw [table, List.getElem?_map, hf]
      rfl
    rw [hi]
    exact emits_choice (by decide) he (emits_sequence (show SingleTag .implicit tag from htag.1)
      htag.2 hw)
  have hversion : IsLong 2 := ⟨by decide, by decide⟩
  exact emits_sequence (show SingleTag .default 0 from trivial) (by decide)
    (written_cons (f := .noFlags (context 0) .implicit asnDefNativeInteger)
      (emits_long (show SingleTag .implicit (context 0) by decide) (by decide) hversion)
      (written_cons (f := .noFlags (context 1) .implicit asnDefOperationTag)
        (emits_long (show SingleTag .implicit (context 1) by decide) (by decide) hz)
        (written_last (f := .noFlags (context 2) .explicit (asnDefRsproPDUchoice stack)) halt)))

theorem emits_slot {id nr : ℤ} (hid : IsLong id) (hnr : IsLong nr) :
    Emits ((asnDefBankSlot stack).descriptor.derEncoder
      (.struct [long id, long nr]) .default (universal 16)) (derSlot id nr) :=
  emits_sequence (ownTag 16) (lowTag (by omega))
    (written_cons (f := .noFlags (universal 2) .default asnDefBankId)
      (emits_long (ownTag 2)
        (lowTag (by omega)) hid)
      (written_last (f := .noFlags (universal 2) .default asnDefSlotNumber)
        (emits_long (ownTag 2)
          (lowTag (by omega)) hnr)))

theorem emits_flag : Emits (asnDefBoolean.descriptor.derEncoder (.boolean 0) .default (universal 1))
    (Der.boolean false) :=
  emits_boolean (ownTag 1) (lowTag (by omega)) 0

theorem emits_tpduFlags : Emits ((asnDefTpduFlags stack).descriptor.derEncoder
    (.struct [some (.boolean 0), some (.boolean 0), some (.boolean 0), some (.boolean 0)])
    .default (universal 16)) derTpduFlags := by
  have heq : derTpduFlags = Der.tlv 0x30 (Der.boolean false ++
      (Der.boolean false ++ (Der.boolean false ++ Der.boolean false))) := by
    rw [derTpduFlags, List.append_assoc, List.append_assoc]
  rw [heq]
  exact emits_sequence (ownTag 16) (lowTag (by omega))
    (written_cons (f := .noFlags (universal 1) .default asnDefBoolean) emits_flag
      (written_cons (f := .noFlags (universal 1) .default asnDefBoolean) emits_flag
        (written_cons (f := .noFlags (universal 1) .default asnDefBoolean) emits_flag
          (written_last (f := .noFlags (universal 1) .default asnDefBoolean) emits_flag))))

theorem emits_data (s : List UInt8) :
    Emits (asnDefOctetString.descriptor.derEncoder (.octets s) .default (universal 4))
      (Der.octetString s) :=
  emits_octets (ownTag 4) (lowTag (by omega)) s

theorem rsproEncMsg_of_emits (hw : Emits ((asnDefRsproPDU stack).derEncoder v .default 0) body) :
    rsproEncMsg stack v = Remsim.rsproEncMsg body := by
  rw [rsproEncMsg, derEncodeToBuffer_emits hw, Remsim.rsproEncMsg]
  by_cases h : body.length ≤ rsproTailroom
  · rw [if_neg (Nat.not_lt.mpr h), if_pos h, Option.map_some]
    exact congrArg some List.take_length
  · rw [if_pos (Nat.not_le.mp h), if_neg h, Option.map_none]

end octets

/-! ### Messages with a TPDU or an ATR -/

section payloads

variable {stack : ℕ} {bank : BankSlotT} {client : ClientSlotT} {z : ℤ} {alternative : UInt8}
  {body : List UInt8}

/-- What is around the members of a PDU without a tag leaves room for 998 octets. -/
theorem pduOctets_fits_iff :
    (pduOctets 0 alternative body).length ≤ rsproTailroom ↔ body.length ≤ 998 := by
  have hv : (Der.integer 0x80 2).length = 3 := by decide +kernel
  have ht : (Der.integer 0x81 0).length = 3 := by decide +kernel
  have h₁ := Der.length_tlv alternative body
  have h₂ := Der.length_tlv 0xa2 (Der.tlv alternative body)
  have h₃ : (pduOctets 0 alternative body).length =
      1 + (Der.lengthOctets (6 + (Der.tlv 0xa2 (Der.tlv alternative body)).length)).length +
        (6 + (Der.tlv 0xa2 (Der.tlv alternative body)).length) := by
    have hsum : (Der.integer 0x80 2 ++ (Der.integer 0x81 0 ++
        Der.tlv 0xa2 (Der.tlv alternative body))).length =
          6 + (Der.tlv 0xa2 (Der.tlv alternative body)).length := by
      rw [List.length_append, List.length_append, hv, ht]
      omega
    rw [pduOctets, Der.length_tlv, hsum]
  have hroom : rsproTailroom = 1016 := rfl
  constructor
  · intro hfit
    by_contra hlong
    have l₁ : 3 ≤ (Der.lengthOctets body.length).length := Der.le_lengthOctets (by omega)
    have l₂ : 3 ≤ (Der.lengthOctets (Der.tlv alternative body).length).length :=
      Der.le_lengthOctets (by omega)
    have l₃ : 3 ≤ (Der.lengthOctets
        (6 + (Der.tlv 0xa2 (Der.tlv alternative body)).length)).length :=
      Der.le_lengthOctets (by omega)
    omega
  · intro hshort
    have l₁ : (Der.lengthOctets body.length).length ≤ 3 := Der.lengthOctets_le (by omega)
    have l₂ : (Der.lengthOctets (Der.tlv alternative body).length).length ≤ 3 :=
      Der.lengthOctets_le (by omega)
    have l₃ : (Der.lengthOctets
        (6 + (Der.tlv 0xa2 (Der.tlv alternative body)).length)).length ≤ 3 :=
      Der.lengthOctets_le (by omega)
    omega

/-- An octet string behind other members, which are short. -/
theorem append_data_fits_iff {s : List UInt8} (hbody : body.length ≤ 90) :
    (body ++ Der.octetString s).length ≤ 998 ↔ s.length + body.length ≤ 994 := by
  have hlen : (body ++ Der.octetString s).length =
      body.length + (1 + (Der.lengthOctets s.length).length + s.length) := by
    rw [List.length_append, Der.octetString, Der.length_tlv]
  constructor
  · intro hfit
    by_contra hlong
    have : 3 ≤ (Der.lengthOctets s.length).length := Der.le_lengthOctets (by omega)
    omega
  · intro hshort
    have : (Der.lengthOctets s.length).length ≤ 3 := Der.lengthOctets_le (by omega)
    omega

theorem length_derSlot_le (id nr : ℤ) : (derSlot id nr).length ≤ 22 := by
  have hid := (Der.integerOctets_length id).2
  have hnr := (Der.integerOctets_length nr).2
  rw [length_derSlot]
  omega

theorem written_tpdu {fields : List Field} {id nr id' nr' : ℤ} (hid : IsLong id) (hnr : IsLong nr)
    (hid' : IsLong id') (hnr' : IsLong nr') (tpdu : List UInt8)
    (hf : fields = [.noFlags (universal 16) .default (asnDefBankSlot stack),
      .noFlags (universal 16) .default (asnDefBankSlot stack),
      .noFlags (universal 16) .default (asnDefTpduFlags stack),
      .noFlags (universal 4) .default asnDefOctetString]) :
    Written (table fields).elements [some (.struct [long id, long nr]),
      some (.struct [long id', long nr']), tpduFlagsValue, some (.octets tpdu)]
      (derSlot id nr ++ (derSlot id' nr' ++ (derTpduFlags ++ Der.octetString tpdu))) := by
  subst hf
  exact written_cons (emits_slot hid hnr) (written_cons (emits_slot hid' hnr')
    (written_cons emits_tpduFlags (written_last (emits_data tpdu))))

theorem emits_tpduCard2Modem (hb : LongBank bank) (hc : LongClient client) (tpdu : List UInt8) :
    Emits ((asnDefRsproPDU stack).derEncoder (rsproGenTpduCard2Modem bank client tpdu) .default 0)
      (derTpduCardToModem bank client tpdu) := by
  have h : Emits ((asnDefRsproPDU stack).derEncoder
      (rsproGenTpduCard2Modem bank client tpdu) .default 0) _ :=
    emits_pdu (i := 18) (z := 0) rfl rfl ⟨by decide, by decide⟩ ⟨by decide, by decide⟩
      (written_tpdu hb.1 hb.2 hc.1 hc.2 tpdu rfl)
  have heq : pduOctets 0 (identifierOctet true (context 13)) (derSlot bank.bankId bank.slotNr ++
      (derSlot client.clientId client.slotNr ++ (derTpduFlags ++ Der.octetString tpdu))) =
        derTpduCardToModem bank client tpdu := by
    rw [pduOctets, derTpduCardToModem]
    simp only [List.append_assoc]
    rfl
  rwa [heq] at h

/-- What is written for the members decides whether there is a message. -/
theorem rsproEncMsg_eq_none_of_emits {v : Value}
    (hw : Emits ((asnDefRsproPDU stack).derEncoder v .default 0) (pduOctets 0 alternative body)) :
    rsproEncMsg stack v = none ↔ 998 < body.length := by
  rw [rsproEncMsg_of_emits hw, Remsim.rsproEncMsg, ite_eq_right_iff, ← Nat.not_le]
  rw [← @pduOctets_fits_iff alternative body]
  exact ⟨fun h hfits => (Option.some_ne_none _ (h hfits)).elim, fun h hfits => absurd hfits h⟩

theorem slots_tpdu_iff (id nr id' nr' : ℤ) (tpdu : List UInt8) :
    998 < (derSlot id nr ++ (derSlot id' nr' ++ (derTpduFlags ++ Der.octetString tpdu))).length ↔
      rsproTailroom < tpdu.length + ((Der.integerOctets id).length +
        (Der.integerOctets nr).length + ((Der.integerOctets id').length +
          (Der.integerOctets nr').length)) + 48 := by
  have h₁ := length_derSlot_le id nr
  have h₂ := length_derSlot_le id' nr'
  have hlen : (derSlot id nr ++ (derSlot id' nr' ++ derTpduFlags)).length =
      26 + ((Der.integerOctets id).length + (Der.integerOctets nr).length +
        ((Der.integerOctets id').length + (Der.integerOctets nr').length)) := by
    rw [List.length_append, List.length_append, length_derSlot, length_derSlot,
      length_derTpduFlags]
    omega
  have hflags := length_derTpduFlags
  have hroom : rsproTailroom = 1016 := rfl
  have hshort : (derSlot id nr ++ (derSlot id' nr' ++ derTpduFlags)).length ≤ 90 := by
    rw [List.length_append, List.length_append]
    omega
  have h := append_data_fits_iff (s := tpdu) hshort
  rw [← Nat.not_le, ← List.append_assoc (derSlot id' nr'), ← List.append_assoc (derSlot id nr), h]
  omega

end payloads

/-! ### The other messages -/

/-- An encoder writes at most `k` octets. -/
def AtMost (enc : Encoder) (k : ℕ) : Prop := ∃ bs, Emits enc bs ∧ bs.length ≤ k

/-- Members are written as at most `k` octets. -/
def MembersAtMost (fields : List Field) (st : List (Option Value)) (k : ℕ) : Prop :=
  ∃ bs, Written (table fields).elements st bs ∧ bs.length ≤ k

section sizes

variable {stack own t j k : ℕ} {m : TagMode} {fields : List Field} {f : Field} {v : Value}
  {o : Option Value} {st : List (Option Value)} {hown : IsTag own}

theorem atMost_integer (hm : SingleTag m t) (ht : LowTag (outerTag own m t)) (l : Int64) :
    AtMost ((nativeInteger [own]).derEncoder (.long l) m t) 10 := by
  refine ⟨_, emits_integer hm ht l, ?_⟩
  have hlen := (Der.integerOctets_length l.toInt).2
  rw [Der.length_tlv_short (by omega)]
  omega

theorem atMost_boolean (hm : SingleTag m t) (ht : LowTag (outerTag own m t)) (b : ℤ) :
    AtMost ((boolean [own]).derEncoder (.boolean b) m t) 3 := by
  refine ⟨_, emits_boolean hm ht b, ?_⟩
  rw [Der.length_tlv_short (by rw [List.length_singleton]; omega), List.length_singleton]

theorem atMost_octets {s : List UInt8} (hm : SingleTag m t) (ht : LowTag (outerTag own m t))
    (hs : s.length ≤ maxNameLen) :
    AtMost ((octetString [own]).derEncoder (.octets s) m t) 34 := by
  refine ⟨_, emits_octets hm ht s, ?_⟩
  have : maxNameLen = 32 := rfl
  rw [Der.length_tlv_short (by omega)]
  omega

theorem atMost_sequence {specs : SequenceSpecs}
    {h : SequenceOk (table fields) specs ∧ Tagged fields ∧ Plain fields} (hm : SingleTag m t)
    (ht : LowTag (outerTag own m t)) (hw : MembersAtMost fields st k) (hk : k < 65536) :
    AtMost ((Codec.sequence stack own fields specs hown h).descriptor.derEncoder (.struct st) m t)
      (k + 4) := by
  obtain ⟨bs, hbs, hlen⟩ := hw
  refine ⟨_, emits_sequence hm ht hbs, ?_⟩
  have := Der.lengthOctets_le (n := bs.length) (by omega)
  rw [Der.length_tlv]
  omega

theorem MembersAtMost.nil : MembersAtMost [] [] 0 := ⟨[], rfl, Nat.le_refl 0⟩

theorem MembersAtMost.cons (he : AtMost (f.codec.descriptor.derEncoder v f.tagMode f.tag) j)
    (hw : MembersAtMost fields st k) : MembersAtMost (f :: fields) (some v :: st) (j + k) := by
  obtain ⟨b₁, he, h₁⟩ := he
  obtain ⟨b₂, hw, h₂⟩ := hw
  refine ⟨b₁ ++ b₂, written_cons he hw, ?_⟩
  rw [List.length_append]
  omega

theorem MembersAtMost.pointer (hf : f.pointerFlag = true ∧ f.optional ≠ 0)
    (he : ∀ v ∈ o, AtMost (f.codec.descriptor.derEncoder v f.tagMode f.tag) j)
    (hw : MembersAtMost fields st k) : MembersAtMost (f :: fields) (o :: st) (j + k) := by
  cases o with
  | none =>
      obtain ⟨b, hw, h⟩ := hw
      exact ⟨b, ⟨hf.1, hf.2, hw⟩, by omega⟩
  | some v => exact .cons (he v rfl) hw

/-- **A PDU with short members is encoded.** -/
theorem pdu_encoded {present : RsproPDUchoicePR} {i tag : ℕ} {z : ℤ} {specs : SequenceSpecs}
    {h : SequenceOk (table fields) specs ∧ Tagged fields ∧ Plain fields}
    (hi : present.ctorIdx = i + 1)
    (hf : (rsproPDUchoiceFields stack)[i]? =
      some (.noFlags tag .implicit (.sequence stack own fields specs hown h)))
    (htag : IsTag tag ∧ LowTag tag) (hz : IsLong z) (hw : MembersAtMost fields st k)
    (hk : k ≤ 991) : rsproEncMsg stack (pduValue z present st) ≠ none := by
  obtain ⟨body, hw, hlen⟩ := hw
  have hfits : (pduOctets z (identifierOctet true tag) body).length ≤ rsproTailroom := by
    have hroom : rsproTailroom = 1016 := rfl
    have hv : (Der.integer 0x80 2).length = 3 := by decide +kernel
    have hz := (Der.integerOctets_length z).2
    have h₁ := Der.length_tlv (identifierOctet true tag) body
    have l₁ := Der.lengthOctets_le (n := body.length) (by omega)
    have h₂ := Der.length_tlv 0xa2 (Der.tlv (identifierOctet true tag) body)
    have l₂ := Der.lengthOctets_le (n := (Der.tlv (identifierOctet true tag) body).length)
      (by omega)
    have hsum : (Der.integer 0x80 2 ++ (Der.integer 0x81 z ++
        Der.tlv 0xa2 (Der.tlv (identifierOctet true tag) body))).length =
          5 + (Der.integerOctets z).length +
            (Der.tlv 0xa2 (Der.tlv (identifierOctet true tag) body)).length := by
      rw [List.length_append, List.length_append, hv, Der.length_integer]
      omega
    have l₃ := Der.lengthOctets_le (n := 5 + (Der.integerOctets z).length +
      (Der.tlv 0xa2 (Der.tlv (identifierOctet true tag) body)).length) (by omega)
    rw [pduOctets, Der.length_tlv, hsum]
    omega
  rw [rsproEncMsg_of_emits (emits_pdu hi hf htag hz hw), Remsim.rsproEncMsg, if_pos hfits]
  exact Option.some_ne_none _

end sizes

section parts

variable {stack : ℕ} {a : AppCompId}

theorem long_atMost {n : ℕ} (hn : n < 31) (z : ℤ) :
    AtMost ((nativeInteger [universal n]).derEncoder (.long (.ofInt z)) .default
      (universal n)) 10 :=
  atMost_integer (ownTag n) (lowTag hn) _

variable (stack) in
theorem componentIdentity_atMost (ha : a.Terminated) : ∃ v, componentIdentityValue (fillCompId a) =
    some v ∧ AtMost ((asnDefComponentIdentity stack).descriptor.derEncoder v .default
      (universal 16)) 286 := by
  have hlen : ∀ x ∈ a.arrays, (cstr x).length ≤ maxNameLen := by
    intro x hx
    obtain ⟨hx, h0⟩ := ha x hx
    have := length_cstr_lt h0
    omega
  simp only [AppCompId.arrays, List.forall_mem_cons] at hlen
  obtain ⟨hname, hsoftware, hswVersion, hhwManufacturer, hhwModel, hhwSerialNr, hhwVersion,
    hfwVersion, -⟩ := hlen
  have hcontext : ∀ n < 7, SingleTag .implicit (context n) ∧
      LowTag (outerTag (universal 22) .implicit (context n)) := by
    decide
  have hstring : ∀ n < 7, ∀ s : List UInt8, s.length ≤ maxNameLen →
      AtMost (asnDefComponentName.descriptor.derEncoder (.octets s) .implicit (context n)) 34 :=
    fun n hn s hs => atMost_octets (hcontext n hn).1 (hcontext n hn).2 hs
  -- the strings that are left out when they are empty
  have hoptional : ∀ n < 7, ∀ x : List UInt8, (cstr x).length ≤ maxNameLen →
      ∀ v ∈ (newFromBuf x).map Value.octets,
        AtMost (asnDefComponentName.descriptor.derEncoder v .implicit (context n)) 34 := by
    intro n hn x hx v hv
    rw [Option.mem_def, Option.map_eq_some_iff] at hv
    obtain ⟨s, hs, rfl⟩ := hv
    unfold newFromBuf at hs
    split_ifs at hs
    obtain rfl := Option.some.inj hs
    exact hstring n hn _ hx
  have hmembers := MembersAtMost.cons (f := .noFlags (universal 10) .default asnDefComponentType)
      (long_atMost (by omega) (fillCompId a).type)
    (.cons (f := .noFlags (universal 22) .default asnDefComponentName)
      (atMost_octets (ownTag 22) (by decide) hname)
    (.cons (f := .noFlags (context 0) .implicit asnDefComponentName)
      (hstring 0 (by omega) _ hsoftware)
    (.cons (f := .noFlags (context 1) .implicit asnDefComponentName)
      (hstring 1 (by omega) _ hswVersion)
    (.pointer (f := .pointer 5 (context 2) .implicit asnDefComponentName) (by decide)
      (hoptional 2 (by omega) _ hhwManufacturer)
    (.pointer (f := .pointer 4 (context 3) .implicit asnDefComponentName) (by decide)
      (hoptional 3 (by omega) _ hhwModel)
    (.pointer (f := .pointer 3 (context 4) .implicit asnDefComponentName) (by decide)
      (hoptional 4 (by omega) _ hhwSerialNr)
    (.pointer (f := .pointer 2 (context 5) .implicit asnDefComponentName) (by decide)
      (hoptional 5 (by omega) _ hhwVersion)
    (.pointer (f := .pointer 1 (context 6) .implicit asnDefComponentName) (by decide)
      (hoptional 6 (by omega) _ hfwVersion)
    .nil))))))))
  refine ⟨_, rfl, ?_⟩
  exact atMost_sequence (ownTag 16) (lowTag (by omega)) hmembers (by decide)

theorem slot_atMost (id nr : ℤ) : AtMost ((asnDefBankSlot stack).descriptor.derEncoder
    (.struct [long id, long nr]) .default (universal 16)) 24 := by
  have hmembers := MembersAtMost.cons (f := .noFlags (universal 2) .default asnDefBankId)
      (long_atMost (by omega) id)
    (.cons (f := .noFlags (universal 2) .default asnDefSlotNumber)
      (long_atMost (by omega) nr) .nil)
  exact atMost_sequence (ownTag 16) (lowTag (by omega)) hmembers (by decide)

variable (stack) in
theorem ipPort_atMost (ip : UInt32) (port : UInt16) : ∃ v, fillIp4Port ip port = some v ∧
    AtMost ((asnDefIpPort stack).descriptor.derEncoder v .default (universal 16)) 48 := by
  have haddress : AtMost ((asnDefIpAddress stack).descriptor.derEncoder
      (.choice 1 (some (.octets [.ofNat (ip.toNat / 2 ^ 24), .ofNat (ip.toNat / 2 ^ 16),
        .ofNat (ip.toNat / 2 ^ 8), .ofNat ip.toNat]))) .default ambiguousTag) 34 := by
    have hocts : AtMost ((octetString [universal 4]).derEncoder (.octets
        [.ofNat (ip.toNat / 2 ^ 24), .ofNat (ip.toNat / 2 ^ 16), .ofNat (ip.toNat / 2 ^ 8),
          .ofNat ip.toNat]) .implicit (context 0)) 34 :=
      atMost_octets (show SingleTag .implicit (context 0) by decide) (by decide) (by
        show 4 ≤ 32
        omega)
    obtain ⟨bs, hbs, hlen⟩ := hocts
    exact ⟨bs, emits_untagged (i := 0) (e := (Field.noFlags (context 0) .implicit
      asnDefIpv4Address).member) rfl hbs _, hlen⟩
  have hmembers := MembersAtMost.cons (f := .noFlags ambiguousTag .default (asnDefIpAddress stack))
      haddress
    (.cons (f := .noFlags (universal 2) .default asnDefPortNumber)
      (long_atMost (by omega) port.toNat) .nil)
  refine ⟨_, rfl, ?_⟩
  exact atMost_sequence (ownTag 16) (lowTag (by omega)) hmembers (by decide)

variable (stack) in
theorem slotPhysStatus_atMost (rst : Bool) (vcc clk card : ℤ) :
    ∃ v, slotPhysStatusValue rst vcc clk card = some v ∧
      AtMost ((asnDefSlotPhysStatus stack).descriptor.derEncoder v .default (universal 16)) 16 := by
  have hcontext : ∀ n < 4, SingleTag .implicit (context n) ∧
      LowTag (outerTag (universal 1) .implicit (context n)) := by
    decide
  have hflag : ∀ n < 4, ∀ b : ℤ, AtMost
      (asnDefBoolean.descriptor.derEncoder (.boolean b) .implicit (context n)) 3 :=
    fun n hn b => atMost_boolean (hcontext n hn).1 (hcontext n hn).2 b
  have hoptional : ∀ n < 4, ∀ z : ℤ, ∀ v ∈ flagValue z, AtMost
      (asnDefBoolean.descriptor.derEncoder v .implicit (context n)) 3 := by
    intro n hn z v hv
    unfold flagValue at hv
    split_ifs at hv
    · obtain rfl := Option.some.inj hv
      exact hflag n hn z
    · cases hv
  have hmembers := MembersAtMost.cons (f := .noFlags (context 0) .implicit asnDefBoolean)
      (hflag 0 (by omega) (if rst then 1 else 0))
    (.pointer (f := .pointer 3 (context 1) .implicit asnDefBoolean) (by decide)
      (hoptional 1 (by omega) vcc)
    (.pointer (f := .pointer 2 (context 2) .implicit asnDefBoolean) (by decide)
      (hoptional 2 (by omega) clk)
    (.pointer (f := .pointer 1 (context 3) .implicit asnDefBoolean) (by decide)
      (hoptional 3 (by omega) card) .nil)))
  refine ⟨_, rfl, ?_⟩
  exact atMost_sequence (ownTag 16) (lowTag (by omega)) hmembers (by decide)

end parts

/-! ### What becomes of a generated PDU -/

section generated

variable {stack : ℕ} {v : Value} {p : RsproPDU} {msg : List UInt8}

/-- A PDU that is short whatever it is made of. -/
theorem short_eq_none_iff (hp : p.longSize = 0) (h : rsproEncMsg stack v ≠ none) :
    rsproEncMsg stack v = none ↔ rsproTailroom < p.longSize := by
  rw [hp]
  exact ⟨fun hn => absurd hn h, fun hn => absurd hn (Nat.not_lt_zero _)⟩

theorem isLong_zero : IsLong 0 := ⟨by decide, by decide⟩

theorem result_encoded {present : RsproPDUchoicePR} {i tag : ℕ} (r : ResultCode)
    (hi : present.ctorIdx = i + 1)
    (hf : (rsproPDUchoiceFields stack)[i]? = some (.noFlags tag .implicit (resultOnly stack)))
    (htag : IsTag tag ∧ LowTag tag) : rsproEncMsg stack (resultValue present r) ≠ none :=
  pdu_encoded hi hf htag isLong_zero
    (.cons (f := .noFlags (universal 10) .default asnDefResultCode) (long_atMost (by omega) _) .nil)
    (by decide)

variable (stack) in
theorem identityResult_atMost {a : AppCompId} (ha : a.Terminated) (r : ResultCode) :
    ∃ v, componentIdentityValue (fillCompId a) = some v ∧ MembersAtMost
      [.noFlags (universal 16) .default (asnDefComponentIdentity stack),
        .noFlags (universal 10) .default asnDefResultCode] [some v, long r.toLong] 296 := by
  obtain ⟨w, hw, hlen⟩ := componentIdentity_atMost stack ha
  refine ⟨w, hw, ?_⟩
  exact .cons (f := .noFlags (universal 16) .default (asnDefComponentIdentity stack)) hlen
    (.cons (f := .noFlags (universal 10) .default asnDefResultCode) (long_atMost (by omega) _) .nil)

theorem MembersAtMost.slot {fields : List Field} {st : List (Option Value)} {k : ℕ} (id nr : ℤ)
    (hw : MembersAtMost fields st k) :
    MembersAtMost (.noFlags (universal 16) .default (asnDefBankSlot stack) :: fields)
      (some (.struct [long id, long nr]) :: st) (24 + k) :=
  .cons (f := .noFlags (universal 16) .default (asnDefBankSlot stack)) (slot_atMost id nr) hw

theorem connectBankReq_encoded {a : AppCompId} (ha : a.Terminated) (bankId numSlots : UInt16) :
    rsproEncMsg stack (rsproGenConnectBankReq a bankId numSlots) ≠ none := by
  obtain ⟨w, hw, hlen⟩ := componentIdentity_atMost stack ha
  rw [rsproGenConnectBankReq, hw]
  exact pdu_encoded (i := 0) rfl rfl ⟨by decide, by decide⟩ isLong_zero
    (.cons (f := .noFlags (universal 16) .default (asnDefComponentIdentity stack)) hlen
      (.cons (f := .noFlags (universal 2) .default asnDefBankId) (long_atMost (by omega) _)
        (.cons (f := .noFlags (universal 2) .default asnDefSlotNumber)
          (long_atMost (by omega) _) .nil))) (by decide)

theorem connectBankRes_encoded {a : AppCompId} (ha : a.Terminated) (res : ResultCode) :
    rsproEncMsg stack (rsproGenConnectBankRes a res) ≠ none := by
  obtain ⟨w, hw, hlen⟩ := identityResult_atMost stack ha res
  rw [rsproGenConnectBankRes, hw]
  exact pdu_encoded (i := 1) rfl rfl ⟨by decide, by decide⟩ isLong_zero hlen (by decide)

theorem connectClientReq_encoded {a : AppCompId} (ha : a.Terminated)
    (client : Option ClientSlotT) :
    rsproEncMsg stack (rsproGenConnectClientReq a client) ≠ none := by
  obtain ⟨w, hw, hlen⟩ := componentIdentity_atMost stack ha
  have hclient : ∀ v ∈ client.bind clientSlotValue, AtMost
      ((asnDefClientSlot stack).descriptor.derEncoder v .default (universal 16)) 24 := by
    intro v hv
    rw [Option.mem_def, Option.bind_eq_some_iff] at hv
    obtain ⟨c, -, hc⟩ := hv
    obtain rfl := Option.some.inj hc
    exact slot_atMost _ _
  rw [rsproGenConnectClientReq, hw]
  exact pdu_encoded (i := 2) rfl rfl ⟨by decide, by decide⟩ isLong_zero
    (.cons (f := .noFlags (universal 16) .default (asnDefComponentIdentity stack)) hlen
      (.pointer (f := .pointer 1 (universal 16) .default (asnDefClientSlot stack))
        ⟨rfl, Nat.one_ne_zero⟩ hclient .nil)) (by decide)

theorem connectClientRes_encoded {a : AppCompId} (ha : a.Terminated) (res : ResultCode) :
    rsproEncMsg stack (rsproGenConnectClientRes a res) ≠ none := by
  obtain ⟨w, hw, hlen⟩ := identityResult_atMost stack ha res
  rw [rsproGenConnectClientRes, hw]
  exact pdu_encoded (i := 3) rfl rfl ⟨by decide, by decide⟩ ⟨by decide, by decide⟩ hlen
    (by decide)

theorem configClientBankReq_encoded (bank : BankSlotT) (ip : UInt32) (port : UInt16) :
    rsproEncMsg stack (rsproGenConfigClientBankReq bank ip port) ≠ none := by
  obtain ⟨w, hw, hlen⟩ := ipPort_atMost stack ip port
  rw [rsproGenConfigClientBankReq, hw]
  exact pdu_encoded (i := 10) rfl rfl ⟨by decide, by decide⟩ isLong_zero (.slot _ _
    (.cons (f := .noFlags (universal 16) .default (asnDefIpPort stack)) hlen .nil)) (by decide)

theorem bankSlotStatusInd_encoded (bank : BankSlotT) (client : ClientSlotT) (rst : Bool)
    (vcc clk card : ℤ) :
    rsproEncMsg stack (rsproGenBankSlotStatusInd bank client rst vcc clk card) ≠ none := by
  obtain ⟨w, hw, hlen⟩ := slotPhysStatus_atMost stack rst vcc clk card
  rw [rsproGenBankSlotStatusInd, hw]
  exact pdu_encoded (i := 20) rfl rfl ⟨by decide, by decide⟩ isLong_zero (.slot _ _ (.slot _ _
    (.cons (f := .noFlags (universal 16) .default (asnDefSlotPhysStatus stack)) hlen .nil)))
    (by decide)

theorem clientSlotStatusInd_encoded (client : ClientSlotT) (bank : BankSlotT) (rst : Bool)
    (vcc clk card : ℤ) :
    rsproEncMsg stack (rsproGenClientSlotStatusInd client bank rst vcc clk card) ≠ none := by
  obtain ⟨w, hw, hlen⟩ := slotPhysStatus_atMost stack rst vcc clk card
  rw [rsproGenClientSlotStatusInd, hw]
  exact pdu_encoded (i := 19) rfl rfl ⟨by decide, by decide⟩ isLong_zero (.slot _ _ (.slot _ _
    (.cons (f := .noFlags (universal 16) .default (asnDefSlotPhysStatus stack)) hlen .nil)))
    (by decide)

theorem setAtrReq_eq_none_iff (clientId slotNr : UInt16) (atr : List UInt8) :
    rsproEncMsg stack (rsproGenSetAtrReq clientId slotNr atr) = none ↔
      rsproTailroom < atr.length + ((Der.integerOctets (clientId.toNat : ℤ)).length +
        (Der.integerOctets (slotNr.toNat : ℤ)).length) + 28 := by
  have hw : Written (table [.noFlags (universal 16) .default (asnDefClientSlot stack),
      .noFlags (universal 4) .default asnDefATR]).elements
      [clientSlotValue ⟨clientId.toNat, slotNr.toNat⟩, some (.octets atr)]
      (derSlot clientId.toNat slotNr.toNat ++ Der.octetString atr) :=
    written_cons (f := .noFlags (universal 16) .default (asnDefClientSlot stack))
      (emits_slot (isLong_toNat _) (isLong_toNat _))
      (written_last (f := .noFlags (universal 4) .default asnDefATR) (emits_data atr))
  have hslot := length_derSlot_le clientId.toNat slotNr.toNat
  have hlen := length_derSlot clientId.toNat slotNr.toNat
  have hroom : rsproTailroom = 1016 := rfl
  rw [rsproGenSetAtrReq, rsproEncMsg_eq_none_of_emits (emits_pdu (i := 15) rfl rfl
    ⟨by decide, by decide⟩ isLong_zero hw), ← Nat.not_le, append_data_fits_iff (by omega)]
  omega

/-- **Which PDUs are not encoded**: those with a TPDU or an ATR that is too long for the buffer. -/
theorem generated_eq_none_iff (h : Generated v p) :
    rsproEncMsg stack v = none ↔ rsproTailroom < p.longSize := by
  cases h with
  | connectBankReq ha bankId numSlots =>
      exact short_eq_none_iff rfl (connectBankReq_encoded ha bankId numSlots)
  | connectBankRes ha res => exact short_eq_none_iff rfl (connectBankRes_encoded ha res)
  | connectClientReq ha hc => exact short_eq_none_iff rfl (connectClientReq_encoded ha _)
  | connectClientRes ha res => exact short_eq_none_iff rfl (connectClientRes_encoded ha res)
  | createMappingReq hc hb =>
      exact short_eq_none_iff rfl (pdu_encoded (i := 4) rfl rfl ⟨by decide, by decide⟩ isLong_zero
        (.slot _ _ (.slot _ _ .nil)) (by decide))
  | createMappingRes res =>
      exact short_eq_none_iff rfl (result_encoded (i := 5) res rfl rfl ⟨by decide, by decide⟩)
  | removeMappingReq hc hb =>
      exact short_eq_none_iff rfl (pdu_encoded (i := 6) rfl rfl ⟨by decide, by decide⟩ isLong_zero
        (.slot _ _ (.slot _ _ .nil)) (by decide))
  | removeMappingRes res =>
      exact short_eq_none_iff rfl (result_encoded (i := 7) res rfl rfl ⟨by decide, by decide⟩)
  | configClientIdReq hc =>
      exact short_eq_none_iff rfl (pdu_encoded (i := 8) rfl rfl ⟨by decide, by decide⟩ isLong_zero
        (.slot _ _ .nil) (by decide))
  | configClientIdRes res =>
      exact short_eq_none_iff rfl (result_encoded (i := 9) res rfl rfl ⟨by decide, by decide⟩)
  | configClientBankReq hb ip port =>
      exact short_eq_none_iff rfl (configClientBankReq_encoded _ ip port)
  | configClientBankRes res =>
      exact short_eq_none_iff rfl (result_encoded (i := 11) res rfl rfl ⟨by decide, by decide⟩)
  | setAtrReq clientId slotNr atr => exact setAtrReq_eq_none_iff clientId slotNr atr
  | setAtrRes res =>
      exact short_eq_none_iff rfl (result_encoded (i := 16) res rfl rfl ⟨by decide, by decide⟩)
  | tpduModem2Card hc hb tpdu =>
      rw [rsproGenTpduModem2Card, clientSlotValue, bankSlotValue, rsproEncMsg_eq_none_of_emits
        (emits_pdu (i := 17) rfl rfl ⟨by decide, by decide⟩ isLong_zero
          (written_tpdu hc.1 hc.2 hb.1 hb.2 tpdu rfl)), slots_tpdu_iff]
      show _ < _ + (_ + (_ + _)) + 48 ↔ _ < _ + (_ + (_ + _)) + 48
      omega
  | tpduCard2Modem hb hc tpdu =>
      rw [rsproGenTpduCard2Modem, bankSlotValue, clientSlotValue, rsproEncMsg_eq_none_of_emits
        (emits_pdu (i := 18) rfl rfl ⟨by decide, by decide⟩ isLong_zero
          (written_tpdu hb.1 hb.2 hc.1 hc.2 tpdu rfl)), slots_tpdu_iff]
      rfl
  | bankSlotStatusInd hb hc rst vcc clk card =>
      exact short_eq_none_iff rfl (bankSlotStatusInd_encoded _ _ rst vcc clk card)
  | clientSlotStatusInd hc hb rst vcc clk card =>
      exact short_eq_none_iff rfl (clientSlotStatusInd_encoded _ _ rst vcc clk card)
  | resetStateReq =>
      exact short_eq_none_iff rfl (pdu_encoded (i := 13) rfl rfl ⟨by decide, by decide⟩ isLong_zero
        .nil (by decide))
  | resetStateRes res =>
      exact short_eq_none_iff rfl (result_encoded (i := 14) res rfl rfl ⟨by decide, by decide⟩)

/-- An answer of 965 octets is one too long. -/
theorem longTpdu_not_encoded : rsproEncMsg 16 (rsproGenTpduCard2Modem ⟨1, 2⟩ ⟨3, 4⟩
    (List.replicate 965 0)) = none := by
  have hb : LongBank ⟨1, 2⟩ := ⟨⟨by decide, by decide⟩, ⟨by decide, by decide⟩⟩
  have hc : LongClient ⟨3, 4⟩ := ⟨⟨by decide, by decide⟩, ⟨by decide, by decide⟩⟩
  refine (generated_eq_none_iff (.tpduCard2Modem hb hc _)).mpr ?_
  rw [RsproPDU.longSize, List.length_replicate]
  decide

/-- **The answer to a TPDU** is written by the tables as `derTpduCardToModem` says. -/
theorem rsproEncMsg_tpduCard2Modem {bank : BankSlotT} {client : ClientSlotT} (hb : LongBank bank)
    (hc : LongClient client) (tpdu : List UInt8) :
    rsproEncMsg stack (rsproGenTpduCard2Modem bank client tpdu) =
      Remsim.rsproEncMsg (derTpduCardToModem bank client tpdu) :=
  rsproEncMsg_of_emits (emits_tpduCard2Modem hb hc tpdu)

theorem tpduCard2Modem_encoded :
    rsproEncMsg 16 (rsproGenTpduCard2Modem ⟨1, 2⟩ ⟨3, 4⟩ [0x90, 0x00]) =
      Remsim.rsproEncMsg (derTpduCardToModem ⟨1, 2⟩ ⟨3, 4⟩ [0x90, 0x00]) :=
  rsproEncMsg_tpduCard2Modem ⟨⟨by decide, by decide⟩, ⟨by decide, by decide⟩⟩
    ⟨⟨by decide, by decide⟩, ⟨by decide, by decide⟩⟩ _

end generated

end Ber

end Remsim
