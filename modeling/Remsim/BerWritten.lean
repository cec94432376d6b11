import Remsim.BerChoice

/-! # The octets that are written

Of a type with a tag number below 31 the encoders write one identifier octet, the shortest length
octets and the contents, so that an encoding is built from `Der.tlv`.  A `Written` list of members
is what both passes of a SEQUENCE agree on. -/

namespace Remsim.Ber

/-- The identifier octet of a tag with a number below 31. -/
def identifierOctet (constructed : Bool) (tag : ℕ) : UInt8 :=
  .ofNat (64 * (tag % 4) + tag / 4 + if constructed then 32 else 0)

/-- A tag with such a number. -/
def LowTag (tag : ℕ) : Prop := tag / 4 ≤ 30

instance (tag : ℕ) : Decidable (LowTag tag) := inferInstanceAs (Decidable (_ ≤ _))

/-- What the members are written as, one after another. -/
def Written : List Member → List (Option Value) → List UInt8 → Prop
  | [], [], bs => bs = []
  | elm :: elements, none :: st, bs =>
      elm.pointer = true ∧ elm.optional ≠ 0 ∧ Written elements st bs
  | elm :: elements, some v :: st, bs =>
      ∃ b₁ b₂, bs = b₁ ++ b₂ ∧ Emits (elm.type.derEncoder v elm.tagMode elm.tag) b₁ ∧
        Written elements st b₂
  | _, _, _ => False

section written

variable {own t : ℕ} {m : TagMode} {constructed : Bool} {contents : List UInt8}

theorem setForm_serialize (ht : LowTag t) :
    setForm constructed (berTlvTagSerialize t) = [identifierOctet constructed t] := by
  have hlow : t / 4 ≤ 30 := ht
  have hall : ∀ n < 256, n % 64 < 32 → UInt8.ofNat n ||| 0x20 = UInt8.ofNat (n + 32) := by
    decide +kernel
  have hmod : (64 * (t % 4) + t / 4) % 64 = t / 4 := by omega
  rw [berTlvTagSerialize, if_pos hlow, setForm]
  cases constructed with
  | false => rfl
  | true =>
      rw [if_pos rfl, hall _ (by omega) (by omega)]
      rfl

theorem tagOctets_tlv (ht : LowTag t) :
    tagOctets contents.length constructed [t] ++ contents =
      Der.tlv (identifierOctet constructed t) contents := by
  rw [tagOctets_single, setForm_serialize ht]
  rfl

theorem emits_primitive (hm : SingleTag m t) (ht : LowTag (outerTag own m t)) :
    Emits (derEncodePrimitive [own] contents m t)
      (Der.tlv (identifierOctet false (outerTag own m t)) contents) := by
  have hw := (derWriteTags_emits [own] contents.length m false t).and (emits_emit contents)
  rw [writtenTags_single hm, tagOctets_tlv ht] at hw
  exact hw

theorem emits_integer (hm : SingleTag m t) (ht : LowTag (outerTag own m t)) (l : Int64) :
    Emits ((nativeInteger [own]).derEncoder (.long l) m t)
      (Der.tlv (identifierOctet false (outerTag own m t)) (Der.integerOctets l.toInt)) :=
  emits_primitive hm ht

theorem emits_boolean (hm : SingleTag m t) (ht : LowTag (outerTag own m t)) (st : ℤ) :
    Emits ((boolean [own]).derEncoder (.boolean st) m t)
      (Der.tlv (identifierOctet false (outerTag own m t)) [if st ≠ 0 then 0xff else 0]) :=
  emits_primitive hm ht

theorem emits_octets (hm : SingleTag m t) (ht : LowTag (outerTag own m t)) (s : List UInt8) :
    Emits ((octetString [own]).derEncoder (.octets s) m t)
      (Der.tlv (identifierOctet false (outerTag own m t)) s) :=
  emits_primitive hm ht

/-- Both passes over the members agree on what they are written as. -/
theorem Written.passes {elements : List Member} {st : List (Option Value)} {bs : List UInt8}
    (hw : Written elements st bs) :
    estimateMembers elements st = some bs.length ∧ Emits (writeMembers elements st) bs := by
  induction elements generalizing st bs with
  | nil =>
      cases st with
      | nil =>
          obtain rfl : bs = [] := hw
          exact ⟨rfl, emits_nil⟩
      | cons v st => exact absurd hw id
  | cons elm elements ih =>
      cases st with
      | nil => exact absurd hw id
      | cons v st =>
          cases v with
          | none =>
              obtain ⟨hp, ho, hw⟩ := hw
              rw [estimateMembers, if_pos ⟨hp, ho⟩, writeMembers, if_pos hp]
              exact ih hw
          | some v =>
              obtain ⟨b₁, b₂, rfl, he, hw⟩ := hw
              obtain ⟨hest, hemit⟩ := ih hw
              refine ⟨?_, he.and hemit⟩
              rw [estimateMembers, he.estimate, Option.bind_some, hest, List.length_append]
              rfl

/-- **A SEQUENCE of members that are written.** -/
theorem emits_sequence {stack : ℕ} {elements : List Member} {specs : SequenceSpecs}
    {st : List (Option Value)} {body : List UInt8} (hm : SingleTag m t)
    (ht : LowTag (outerTag own m t)) (hw : Written elements st body) :
    Emits ((sequence stack [own] elements specs).derEncoder (.struct st) m t)
      (Der.tlv (identifierOctet true (outerTag own m t)) body) := by
  obtain ⟨hest, hemit⟩ := hw.passes
  have h := sequenceEncodeDer_emits hest hemit [own] m t
  rw [writtenTags_single hm, tagOctets_tlv ht] at h
  exact h

/-- **A CHOICE behind an explicit tag.** -/
theorem emits_choice {stack i : ℕ} {members : Members} {specs : ChoiceSpecs} {w : Value}
    {e : Member × BerType} {bs : List UInt8} (ht : LowTag t) (he : members[i]? = some e)
    (hw : Emits (e.1.type.derEncoder w e.1.tagMode e.1.tag) bs) :
    Emits ((choice stack [] members.elements specs).derEncoder
      (.choice (i + 1) (some w)) .explicit t) (Der.tlv (identifierOctet true t) bs) := by
  have h := @choiceEncodeDer_emits t members .explicit bs i e w he hw
  rw [if_pos rfl, tagOctets_tlv ht] at h
  exact h

theorem emits_untagged {stack i : ℕ} {members : Members} {specs : ChoiceSpecs} {w : Value}
    {e : Member × BerType} {bs : List UInt8} (he : members[i]? = some e)
    (hw : Emits (e.1.type.derEncoder w e.1.tagMode e.1.tag) bs) (t : ℕ) :
    Emits ((choice stack [] members.elements specs).derEncoder
      (.choice (i + 1) (some w)) .default t) bs := by
  have h := choiceEncodeDer_emits (m := .default) (t := t) he hw
  rwa [if_neg (by decide)] at h

end written

end Remsim.Ber
