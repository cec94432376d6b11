import Remsim.BerTlv

/-! # Tags around the contents (`ber_decoder.c`, `der_encoder.c`)

`ber_check_tags()` and `der_write_tags()` take off and put on the tags of a type; the decoders and
encoders of all types rest on them.

A type descriptor is the record of functions that it is in C.  Beside it stands a `BerType`, which
says what octets X.690 has for which value; `Implements` connects the two.  The encoder's part of
it is that both passes of an encoder agree: what it estimates without a buffer is the length of
what it writes (`Emits`). -/

namespace Remsim.Ber

open Delimited

/-! ### Values -/

/-- A value in the C structure of its type: a `long`, an `int` for BOOLEAN, the octets of a string,
the members of a SEQUENCE, of which a `NULL` pointer is `none`, and the presence index of a CHOICE
with the member that it names.  The index is zero while nothing is present. -/
inductive Value where
  | long (v : Int64)
  | boolean (v : ℤ)
  | octets (l : List UInt8)
  | struct (members : List (Option Value))
  | choice (present : ℕ) (member : Option Value)

mutual

/-- A value with every truth value as it is after encoding and decoding. -/
def Value.canon : Value → Value
  | .long v => .long v
  | .boolean v => .boolean (if v = 0 then 0 else 255)
  | .octets l => .octets l
  | .struct ms => .struct (canonMembers ms)
  | .choice present m => .choice present (canonMember m)

def canonMembers : List (Option Value) → List (Option Value)
  | [] => []
  | m :: ms => canonMember m :: canonMembers ms

def canonMember : Option Value → Option Value
  | none => none
  | some v => some v.canon

end

mutual

/-- Whether no CHOICE in a value is without an alternative. -/
def Value.known : Value → Bool
  | .long _ => true
  | .boolean _ => true
  | .octets _ => true
  | .struct ms => knownMembers ms
  | .choice present m => present ≠ 0 && knownMember m

def knownMembers : List (Option Value) → Bool
  | [] => true
  | m :: ms => knownMember m && knownMembers ms

def knownMember : Option Value → Bool
  | none => true
  | some v => v.known

end

/-! ### Reading tags -/

/-- `tag_mode`: the type's own tags, or another one in place of the first (`-1`), or one around them
(`+1`). -/
inductive TagMode where
  | default
  | implicit
  | explicit
deriving DecidableEq, Repr

/-- The tags that `ber_check_tags()` looks for, `none` where it takes any: the caller has looked at
the tag that it replaced or added itself. -/
def expectedTags (tags : List ℕ) : TagMode → List (Option ℕ)
  | .default => tags.map some
  | .implicit => none :: tags.tail.map some
  | .explicit => none :: tags.map some

/-- The loop of `ber_check_tags()`; `lastTagForm` is `none` where both forms are taken. -/
def checkTags (lastTagForm : Option Bool) : List (Option ℕ) → (limitLen : Option ℤ) →
    (expect00Terminators : ℕ) → (tlvConstr : Bool) → (tlvLen : ℤ) → (consumedMyself : ℕ) →
    List UInt8 → Outcome (ℤ × Bool)
  | [], _, expect00, tlvConstr, tlvLen, consumed, _ =>
      .ok (if expect00 ≠ 0 then -expect00 else tlvLen, tlvConstr) consumed
  | tag :: tags, limitLen, expect00, _, _, consumed, ptr =>
      (berFetchTag ptr).bind fun tlvTag tagLen =>
        let tlvConstr := berTlvConstructed ptr
        if tag ≠ none ∧ tag ≠ some tlvTag then .fail
        else if tags ≠ [] ∧ tlvConstr = false then .fail
        else if tags = [] ∧ lastTagForm ≠ some tlvConstr ∧ lastTagForm ≠ none then .fail
        else
          (berFetchLength tlvConstr (ptr.drop tagLen)).bind fun tlvLen lenLen =>
            let rest := ptr.drop (tagLen + lenLen)
            if tlvLen = -1 then
              if limitLen = none then
                checkTags lastTagForm tags none (expect00 + 1) tlvConstr tlvLen
                  (consumed + (tagLen + lenLen)) rest
              else .fail
            else if expect00 ≠ 0 then .fail
            else if limitLen = none ∧ 2 ^ 63 ≤ tlvLen + (tagLen + lenLen) then .fail
            else if limitLen ≠ none ∧ limitLen ≠ some (tlvLen + (tagLen + lenLen)) then .fail
            else
              checkTags lastTagForm tags (some tlvLen) expect00 tlvConstr tlvLen
                (consumed + (tagLen + lenLen)) (rest.take tlvLen.toNat)

/-- `ber_check_tags()`: the length of the contents, negative where end-of-contents octets are
awaited, and the form of the last tag. -/
def berCheckTags (tags : List ℕ) (tagMode : TagMode) (lastTagForm : Option Bool)
    (ptr : List UInt8) : Outcome (ℤ × Bool) :=
  checkTags lastTagForm (expectedTags tags tagMode) none 0 false 0 0 ptr

/-- What the decoders of the primitive types begin with: the tags, and the contents, which have to
be there as a whole. -/
def decodeContents (tags : List ℕ) (tagMode : TagMode) (bufPtr : List UInt8) :
    Outcome (List UInt8) :=
  (berCheckTags tags tagMode (some false) bufPtr).bind fun (length, _) consumed =>
    let bufPtr := bufPtr.drop consumed
    if bufPtr.length < length then .more
    else .ok (bufPtr.take length.toNat) (consumed + length.toNat)

/-! ### Writing tags -/

/-- `enc_to_buf_arg`: what is in the buffer, and how much it still takes. -/
structure EncToBufArg where
  buffer : List UInt8
  left : ℕ
deriving DecidableEq, Repr

/-- `encode_to_buffer_cb()`. -/
def encodeToBufferCb (data : List UInt8) (arg : EncToBufArg) : Option EncToBufArg :=
  if arg.left < data.length then none
  else some ⟨arg.buffer ++ data, arg.left - data.length⟩

/-- The callback of an encoder with its argument; without it the encoding is only measured. -/
abbrev Sink := Option EncToBufArg

/-- An encoder of some octets: their number, or a failure (`-1`). -/
abbrev Encoder := Sink → Option (ℕ × Sink)

/-- Octets that are handed to the callback. -/
def emit (data : List UInt8) : Encoder
  | none => some (data.length, none)
  | some arg => (encodeToBufferCb data arg).map fun arg => (data.length, some arg)

/-- One encoder after another, and the sum of their numbers. -/
def Encoder.and (e₁ e₂ : Encoder) : Encoder := fun cb =>
  (e₁ cb).bind fun r₁ => (e₂ r₁.2).map fun r₂ => (r₁.1 + r₂.1, r₂.2)

/-- The first octet of a tag, with the bit of a constructed element when it is one. -/
def setForm (constructed : Bool) : List UInt8 → List UInt8
  | [] => []
  | o :: l => (if constructed then o ||| 0x20 else o) :: l

/-- `der_write_TL()`. -/
def derWriteTL (tag len : ℕ) (constructed : Bool) : Encoder :=
  emit (setForm constructed (berTlvTagSerialize tag) ++ Der.lengthOctets len)

/-- The tags that `der_write_tags()` writes. -/
def writtenTags (tags : List ℕ) : TagMode → ℕ → List ℕ
  | .default, _ => tags
  | .implicit, tag => tag :: tags.tail
  | .explicit, tag => tag :: tags

/-- The size of the tags and the contents, measured from right to left. -/
def overallLength (structLength : ℕ) : List ℕ → ℕ
  | [] => structLength
  | tag :: tags =>
      let len := overallLength structLength tags
      (berTlvTagSerialize tag ++ Der.lengthOctets len).length + len

/-- The tags, each with the length of what is behind it. -/
def writeTags (structLength : ℕ) (lastTagForm : Bool) : List ℕ → Encoder
  | [] => fun cb => some (0, cb)
  | tag :: tags =>
      (derWriteTL tag (overallLength structLength tags) (lastTagForm || tags ≠ [])).and
        (writeTags structLength lastTagForm tags)

/-- `der_write_tags()`. -/
def derWriteTags (tags : List ℕ) (structLength : ℕ) (tagMode : TagMode) (lastTagForm : Bool)
    (tag : ℕ) : Encoder := fun cb =>
  let tags := writtenTags tags tagMode tag
  let n := overallLength structLength tags - structLength
  match cb with
  | none => some (n, none)
  | some arg => (writeTags structLength lastTagForm tags (some arg)).map fun (_, cb) => (n, cb)

/-- `der_encode_primitive()`, and what the other encoders of primitive types do. -/
def derEncodePrimitive (tags : List ℕ) (contents : List UInt8) (tagMode : TagMode) (tag : ℕ) :
    Encoder :=
  (derWriteTags tags contents.length tagMode false tag).and (emit contents)

/-- `asn_TYPE_descriptor_t`, as far as BER is concerned. -/
structure TypeDescriptor where
  tags : List ℕ
  berDecoder : TagMode → List UInt8 → Outcome Value
  derEncoder : Value → TagMode → ℕ → Encoder

/-! ### What octets encode a value -/

/-- A primitive element. -/
def Primitive (tag : ℕ) (contents bs : List UInt8) : Prop :=
  ∃ h l, Identifier false tag h ∧ Definite contents.length l ∧ bs = h ++ l ++ contents

/-- A constructed element, of definite or indefinite length. -/
inductive Constructed (tag : ℕ) (contents : List UInt8) : List UInt8 → Prop where
  | definite {h l : List UInt8} (hi : Identifier true tag h) (hl : Definite contents.length l) :
      Constructed tag contents (h ++ l ++ contents)
  | indefinite {h : List UInt8} (hi : Identifier true tag h) :
      Constructed tag contents (h ++ [0x80] ++ (contents ++ [0, 0]))

/-- Octets that begin with one of the tags. -/
def Begins (tags : List ℕ) (bs : List UInt8) : Prop :=
  ∃ c tag h r, bs = h ++ r ∧ Identifier c tag h ∧ tag ≠ 0 ∧ tag ∈ tags

/-- A tag of an element: not the one that is reserved, and of 32 bits. -/
def IsTag (tag : ℕ) : Prop := tag ≠ 0 ∧ tag < 2 ^ 32

instance (tag : ℕ) : Decidable (IsTag tag) := inferInstanceAs (Decidable (_ ∧ _))

/-- **What a type is for**: the tags that its encodings begin with, the ways to tag it, and the
encodings of each value. -/
structure BerType where
  outer : TagMode → ℕ → List ℕ
  Admits : TagMode → ℕ → Prop
  Encodes : TagMode → ℕ → Value → List UInt8 → Prop

/-- Every call of the encoder fails. -/
def Refuses (enc : Encoder) : Prop := ∀ cb, enc cb = none

/-- **Both passes of an encoder agree**: it measures the octets that it writes, and writing fails
when the buffer does not take all of them. -/
structure Emits (enc : Encoder) (bs : List UInt8) : Prop where
  estimate : enc none = some (bs.length, none)
  write : ∀ arg, enc (some arg) = (encodeToBufferCb bs arg).map fun arg => (bs.length, some arg)

/-- **The functions of a descriptor do what the type is for.** -/
structure Implements (td : TypeDescriptor) (T : BerType) : Prop where
  reads : ∀ {m t v bs}, T.Encodes m t v bs → Reads (td.berDecoder m) bs v
  begins : ∀ {m t v bs}, T.Encodes m t v bs → Begins (T.outer m t) bs
  encodes : ∀ v {m t}, T.Admits m t → Refuses (td.derEncoder v m t) ∨
    ∃ bs, Emits (td.derEncoder v m t) bs ∧ (bs.length + 1024 < 2 ^ 63 → T.Encodes m t v.canon bs)
  decoded : ∀ {m t data v n}, T.Admits m t → td.berDecoder m data = .ok v n → n ≤ data.length ∧
    (v.known = true → ∀ m' t', T.Admits m' t' → ∃ bs, Emits (td.derEncoder v m' t') bs)

/-- The tag of a type with one tag of its own. -/
def outerTag (own : ℕ) : TagMode → ℕ → ℕ
  | .default, _ => own
  | _, tag => tag

/-- A type with one tag of its own has that tag or another one in its place. -/
def SingleTag : TagMode → ℕ → Prop
  | .default, _ => True
  | .implicit, tag => IsTag tag
  | .explicit, _ => False

/-- A primitive type, given the contents octets of each value. -/
def BerType.primitive (own : ℕ) (R : Value → List UInt8 → Prop) : BerType where
  outer := fun m t => [outerTag own m t]
  Admits := SingleTag
  Encodes := fun m t v bs => SingleTag m t ∧
    ∃ contents, R v contents ∧ Primitive (outerTag own m t) contents bs

/-! ### Reading what is there -/

section reading

variable {form : Option Bool} {x : Option ℕ} {tag n own : ℕ} {c : Bool} {h l bs : List UInt8}
  {m : TagMode} {t : ℕ}

theorem fetch_ifs (hx : x = none ∨ x = some tag) (hf : form = none ∨ form = some c) :
    ¬(x ≠ none ∧ x ≠ some tag) ∧ ¬(([] : List (Option ℕ)) ≠ [] ∧ c = false) ∧
      ¬(([] : List (Option ℕ)) = [] ∧ form ≠ some c ∧ form ≠ none) := by
  refine ⟨?_, fun h => h.1 rfl, ?_⟩
  · rintro ⟨h₁, h₂⟩
    rcases hx with hx | hx
    · exact h₁ hx
    · exact h₂ hx
  · rintro ⟨-, h₁, h₂⟩
    rcases hf with hf | hf
    · exact h₂ hf
    · exact h₁ hf

theorem checkTags_definite (hi : Identifier c tag h) (hl : Definite n l)
    (hx : x = none ∨ x = some tag) (hf : form = none ∨ form = some c) :
    Reads (checkTags form [x] none 0 false 0 0) (h ++ l) ((n : ℤ), c) := by
  obtain ⟨h₁, h₂, h₃⟩ := fetch_ifs hx hf
  constructor
  · intro rest
    have hh := hi.length_le
    have hll := hl.length_le
    have hmax := hl.max
    have hneg : ¬(n : ℤ) = -1 := by omega
    have hover : ¬(none = (none : Option ℤ) ∧
        (2 : ℤ) ^ 63 ≤ (n : ℤ) + ((h.length : ℤ) + (l.length : ℤ))) := by
      rintro ⟨-, ho⟩
      have : ((2 : ℤ) ^ 63) = 9223372036854775808 := by norm_num
      omega
    rw [List.append_assoc, checkTags, hi.reads.complete, Outcome.bind_ok, hi.constructed_append]
    dsimp only
    rw [if_neg h₁, if_neg h₂, if_neg h₃, List.drop_left, (hl.reads c).complete, Outcome.bind_ok,
      if_neg hneg, if_neg (fun h => h rfl), if_neg hover, if_neg (fun h => h.1 rfl), checkTags,
      List.length_append, Nat.zero_add]
    rfl
  · intro p q hq hpq
    obtain ⟨r, hr, hp⟩ | ⟨p', rfl, hp'⟩ := append_cut hpq
    · rw [checkTags, hi.reads.cut p r hr hp, Outcome.bind_more]
    · rw [checkTags, hi.reads.complete, Outcome.bind_ok, hi.constructed_append]
      dsimp only
      rw [if_neg h₁, if_neg h₂, if_neg h₃, List.drop_left, (hl.reads c).cut p' q hq hp',
        Outcome.bind_more]

theorem checkTags_indefinite (hi : Identifier true tag h) (hx : x = none ∨ x = some tag)
    (hf : form = none ∨ form = some true) :
    Reads (checkTags form [x] none 0 false 0 0) (h ++ [0x80]) (-1, true) := by
  obtain ⟨h₁, h₂, h₃⟩ := fetch_ifs hx hf
  constructor
  · intro rest
    rw [List.append_assoc, checkTags, hi.reads.complete, Outcome.bind_ok, hi.constructed_append]
    dsimp only
    rw [if_neg h₁, if_neg h₂, if_neg h₃, List.drop_left, reads_indefinite.complete,
      Outcome.bind_ok, if_pos rfl, if_pos rfl,
      checkTags, if_pos (by decide), List.length_append, Nat.zero_add, Nat.zero_add]
    rfl
  · intro p q hq hpq
    obtain ⟨r, hr, hp⟩ | ⟨p', rfl, hp'⟩ := append_cut hpq
    · rw [checkTags, hi.reads.cut p r hr hp, Outcome.bind_more]
    · rw [checkTags, hi.reads.complete, Outcome.bind_ok, hi.constructed_append]
      dsimp only
      rw [if_neg h₁, if_neg h₂, if_neg h₃, List.drop_left, reads_indefinite.cut p' q hq hp',
        Outcome.bind_more]

variable (own) in
theorem expectedTags_single (hm : SingleTag m t) : ∃ x, expectedTags [own] m = [x] ∧
    (x = none ∨ x = some (outerTag own m t)) := by
  cases m with
  | default => exact ⟨some own, rfl, .inr rfl⟩
  | implicit => exact ⟨none, rfl, .inl rfl⟩
  | explicit => exact absurd hm id

/-- **The contents of a primitive element.** -/
theorem decodeContents_reads {contents : List UInt8} (hm : SingleTag m t)
    (hb : Primitive (outerTag own m t) contents bs) :
    Reads (decodeContents [own] m) bs contents := by
  obtain ⟨x, he, hx⟩ := expectedTags_single own hm
  obtain ⟨h, l, hi, hl, rfl⟩ := hb
  have hhead := checkTags_definite hi hl hx (.inr rfl : some false = none ∨ some false = some false)
  rw [← he] at hhead
  constructor
  · intro rest
    have hlen : ¬(((contents ++ rest).length : ℤ) < (contents.length : ℤ)) := by
      rw [List.length_append]
      omega
    rw [List.append_assoc, decodeContents, berCheckTags, hhead.complete, Outcome.bind_ok]
    simp only [List.drop_left, if_neg hlen, Int.toNat_natCast, List.take_left]
    rw [@List.length_append _ (h ++ l)]
  · intro p q hq hpq
    obtain ⟨r, hr, hp⟩ | ⟨p', rfl, hp'⟩ := append_cut hpq
    · rw [decodeContents, berCheckTags, hhead.cut p r hr hp, Outcome.bind_more]
    · have hlen : (p'.length : ℤ) < (contents.length : ℤ) := by
        have hpos := List.length_pos_of_ne_nil hq
        rw [← hp', List.length_append]
        omega
      rw [decodeContents, berCheckTags, hhead.complete, Outcome.bind_ok]
      simp only [List.drop_left, if_pos hlen]

theorem Primitive.begins {contents : List UInt8} (ht : tag ≠ 0)
    (hb : Primitive tag contents bs) : Begins [tag] bs := by
  obtain ⟨h, l, hi, -, rfl⟩ := hb
  exact ⟨false, tag, h, l ++ contents, List.append_assoc _ _ _, hi, ht, List.mem_singleton_self _⟩

theorem Constructed.begins {contents : List UInt8} (ht : tag ≠ 0)
    (hb : Constructed tag contents bs) : Begins [tag] bs := by
  cases hb with
  | definite hi hl =>
      exact ⟨true, tag, _, _, List.append_assoc _ _ _, hi, ht, List.mem_singleton_self _⟩
  | indefinite hi =>
      exact ⟨true, tag, _, _, List.append_assoc _ _ _, hi, ht, List.mem_singleton_self _⟩

theorem SingleTag.outerTag_ne_zero (hm : SingleTag m t) (hown : IsTag own) :
    IsTag (outerTag own m t) := by
  cases m with
  | default => exact hown
  | implicit => exact hm
  | explicit => exact absurd hm id

/-! ### Bounds -/

theorem checkTags_bounds {tags : List (Option ℕ)} {limit : Option ℤ} {e00 consumed k : ℕ}
    {tlvLen : ℤ} {data : List UInt8} {r : ℤ × Bool}
    (hc : checkTags form tags limit e00 c tlvLen consumed data = .ok r k) :
    consumed ≤ k ∧ k ≤ consumed + data.length := by
  induction tags generalizing limit e00 c tlvLen consumed data with
  | nil =>
      rw [checkTags] at hc
      cases hc
      exact ⟨le_rfl, Nat.le_add_right _ _⟩
  | cons x tags ih =>
      rw [checkTags] at hc
      obtain ⟨tag, tl, hfetch, hc⟩ := Outcome.bind_eq_ok hc
      have htl := fetchTag_bounds hfetch
      have hc := (Outcome.guard_eq_ok hc).2
      have hc := (Outcome.guard_eq_ok hc).2
      have hc := (Outcome.guard_eq_ok hc).2
      obtain ⟨len, ll, hlen, hc⟩ := Outcome.bind_eq_ok hc
      obtain ⟨-, hlo, hhi⟩ := fetchLength_bounds hlen
      rw [List.length_drop] at hhi
      split_ifs at hc
      · have := ih hc
        rw [List.length_drop] at this
        omega
      · have := ih hc
        rw [List.length_take, List.length_drop] at this
        omega

theorem checkTags_ne_hang {tags : List (Option ℕ)} {limit : Option ℤ} {e00 consumed : ℕ}
    {tlvLen : ℤ} {data : List UInt8} :
    checkTags form tags limit e00 c tlvLen consumed data ≠ .hang := by
  induction tags generalizing limit e00 c tlvLen consumed data with
  | nil =>
      rw [checkTags]
      exact fun h => by cases h
  | cons x tags ih =>
      rw [checkTags]
      intro hc
      obtain hc | ⟨tag, tl, -, hc⟩ := Outcome.bind_eq_hang hc
      · exact returns_fetchTag _ hc
      · have hc := (Outcome.guard_eq_hang hc).2
        have hc := (Outcome.guard_eq_hang hc).2
        have hc := (Outcome.guard_eq_hang hc).2
        obtain hc | ⟨len, ll, -, hc⟩ := Outcome.bind_eq_hang hc
        · exact returns_fetchLength _ _ hc
        · split_ifs at hc
          · exact ih hc
          · exact ih hc

theorem returns_checkTags (tags : List ℕ) (m : TagMode) (form : Option Bool) :
    Returns (berCheckTags tags m form) := fun _ => checkTags_ne_hang

theorem decodeContents_bounds {tags : List ℕ} {data contents : List UInt8} {k : ℕ}
    (hd : decodeContents tags m data = .ok contents k) : k ≤ data.length := by
  rw [decodeContents] at hd
  obtain ⟨r, consumed, hc, hd⟩ := Outcome.bind_eq_ok hd
  have hb := checkTags_bounds hc
  dsimp only at hd
  split_ifs at hd with hlen
  rw [List.length_drop] at hlen
  cases hd
  omega

theorem returns_decodeContents (tags : List ℕ) (m : TagMode) : Returns (decodeContents tags m) := by
  intro data hd
  rw [decodeContents] at hd
  obtain hd | ⟨r, consumed, -, hd⟩ := Outcome.bind_eq_hang hd
  · exact returns_checkTags _ _ _ _ hd
  · dsimp only at hd
    split_ifs at hd

end reading

/-! ### Writing -/

section writing

variable {e e₁ e₂ : Encoder} {b b₁ b₂ data : List UInt8} {m : TagMode} {t own n : ℕ} {form : Bool}

theorem encodeToBufferCb_append (a b : List UInt8) (arg : EncToBufArg) :
    encodeToBufferCb (a ++ b) arg = (encodeToBufferCb a arg).bind (encodeToBufferCb b) := by
  unfold encodeToBufferCb
  rw [List.length_append]
  by_cases ha : arg.left < a.length
  · rw [if_pos (by omega), if_pos ha]
    rfl
  · rw [if_neg ha, Option.bind_some]
    by_cases hb : arg.left - a.length < b.length
    · rw [if_pos (by omega), if_pos hb]
    · rw [if_neg (by omega), if_neg hb, List.append_assoc, Nat.sub_sub]

theorem emits_emit (data : List UInt8) : Emits (emit data) data := ⟨rfl, fun _ => rfl⟩

theorem emits_nil : Emits (fun cb => some (0, cb)) [] := by
  refine ⟨rfl, fun arg => ?_⟩
  rw [encodeToBufferCb, List.length_nil, if_neg (Nat.not_lt_zero arg.left), List.append_nil]
  rfl

/-- **One encoder after another.** -/
theorem Emits.and (h₁ : Emits e₁ b₁) (h₂ : Emits e₂ b₂) : Emits (e₁.and e₂) (b₁ ++ b₂) := by
  constructor
  · rw [Encoder.and, h₁.estimate, Option.bind_some, h₂.estimate, Option.map_some,
      List.length_append]
  · intro arg
    rw [Encoder.and, h₁.write, encodeToBufferCb_append, List.length_append]
    cases encodeToBufferCb b₁ arg with
    | none => rfl
    | some arg' =>
        rw [Option.map_some, Option.bind_some, Option.bind_some, h₂.write, Option.map_map]
        rfl

theorem Emits.not_refuses (h : Emits e b) : ¬Refuses e := by
  intro hr
  have := hr none
  rw [h.estimate] at this
  cases this

theorem length_setForm (c : Bool) (l : List UInt8) : (setForm c l).length = l.length := by
  cases l with
  | nil => rfl
  | cons o l => rfl

theorem or_form {n : ℕ} (hn : n < 256) (hbit : n / 32 % 2 = 0) :
    (UInt8.ofNat n ||| 0x20).toNat = n + 32 := by
  have hall : ∀ n < 256, n / 32 % 2 = 0 → (UInt8.ofNat n ||| 0x20).toNat = n + 32 := by
    decide +kernel
  exact hall n hn hbit

/-- The bit of a constructed element changes nothing else. -/
theorem identifier_setForm (ht : t < 2 ^ 32) (c : Bool) :
    Identifier c t (setForm c (berTlvTagSerialize t)) := by
  have hi := identifier_serialize ht
  generalize berTlvTagSerialize t = h at hi
  have hset : ∀ o : UInt8, decide (o.toNat / 32 % 2 = 1) = false →
      (o ||| 0x20).toNat = o.toNat + 32 := by
    intro o hform
    have hor := or_form o.toNat_lt (by rw [decide_eq_false_iff_not] at hform; omega)
    rwa [UInt8.ofNat_toNat] at hor
  cases c with
  | false => cases hi with
    | short hform hval => exact .short hform hval
    | long hform hval hlen hd => exact .long hform hval hlen hd
  | true => cases hi with
    | @short o hform hval =>
        have ho := hset o hform
        rw [decide_eq_false_iff_not] at hform
        have hnew := @Identifier.short true (o ||| 0x20)
          (by rw [ho, decide_eq_true_eq]; omega) (by rw [ho]; omega)
        rwa [ho, show (o.toNat + 32) % 32 = o.toNat % 32 by omega,
          show (o.toNat + 32) / 64 = o.toNat / 64 by omega] at hnew
    | @long o digits val hform hval hlen hd =>
        have ho := hset o hform
        rw [decide_eq_false_iff_not] at hform
        have hnew := @Identifier.long true (o ||| 0x20) _ _
          (by rw [ho, decide_eq_true_eq]; omega) (by rw [ho]; omega) hlen hd
        rwa [ho, show (o.toNat + 32) / 64 = o.toNat / 64 by omega] at hnew

/-- The octets in front of the contents. -/
def tagOctets (n : ℕ) (form : Bool) : List ℕ → List UInt8
  | [] => []
  | tag :: tags =>
      (setForm (form || tags ≠ []) (berTlvTagSerialize tag) ++
        Der.lengthOctets (overallLength n tags)) ++ tagOctets n form tags

theorem overallLength_eq (n : ℕ) (form : Bool) (tags : List ℕ) :
    overallLength n tags = (tagOctets n form tags).length + n := by
  induction tags with
  | nil => exact (Nat.zero_add n).symm
  | cons tag tags ih =>
      simp only [overallLength, tagOctets, List.length_append, length_setForm]
      omega

theorem writeTags_emits (n : ℕ) (form : Bool) (tags : List ℕ) :
    Emits (writeTags n form tags) (tagOctets n form tags) := by
  induction tags with
  | nil => exact emits_nil
  | cons tag tags ih => exact (emits_emit _).and ih

/-- **`der_write_tags()` measures what it writes.** -/
theorem derWriteTags_emits (tags : List ℕ) (n : ℕ) (m : TagMode) (form : Bool) (t : ℕ) :
    Emits (derWriteTags tags n m form t) (tagOctets n form (writtenTags tags m t)) := by
  have hlen : overallLength n (writtenTags tags m t) - n =
      (tagOctets n form (writtenTags tags m t)).length := by
    rw [overallLength_eq n form]
    omega
  constructor
  · rw [derWriteTags, hlen]
  · intro arg
    simp only [derWriteTags, hlen, (writeTags_emits n form _).write, Option.map_map]
    rfl

theorem writtenTags_single (hm : SingleTag m t) : writtenTags [own] m t = [outerTag own m t] := by
  cases m with
  | default => rfl
  | implicit => rfl
  | explicit => exact absurd hm id

theorem tagOctets_single (t n : ℕ) (form : Bool) :
    tagOctets n form [t] = setForm form (berTlvTagSerialize t) ++ Der.lengthOctets n := by
  have hform : (form || decide (([] : List ℕ) ≠ [])) = form := Bool.or_false form
  rw [tagOctets, hform, tagOctets, List.append_nil]
  rfl

theorem primitive_tagOctets (ht : IsTag t)
    (hmax : (tagOctets data.length false [t] ++ data).length + 1024 < 2 ^ 63) :
    Primitive t data (tagOctets data.length false [t] ++ data) := by
  rw [List.length_append] at hmax
  rw [tagOctets_single]
  exact ⟨_, _, identifier_setForm ht.2 false, definite_lengthOctets (by omega), rfl⟩

theorem constructed_tagOctets (ht : IsTag t)
    (hmax : (tagOctets data.length true [t] ++ data).length + 1024 < 2 ^ 63) :
    Constructed t data (tagOctets data.length true [t] ++ data) := by
  rw [List.length_append] at hmax
  rw [tagOctets_single]
  exact .definite (identifier_setForm ht.2 true) (definite_lengthOctets (by omega))

end writing

/-! ### Primitive types -/

section primitive

variable {own : ℕ} {td : TypeDescriptor} {decode : List UInt8 → Option Value}
  {encode : Value → Option (List UInt8)}

/-- **A primitive type**, given what its decoder makes of the contents and what its encoder writes
there. -/
theorem implements_primitive (hown : IsTag own)
    (hdec : ∀ m data, td.berDecoder m data = (decodeContents [own] m data).bind fun c n =>
      match decode c with
      | none => .fail
      | some v => .ok v n)
    (henc : ∀ v m t, td.derEncoder v m t =
      match encode v with
      | none => fun _ => none
      | some c => derEncodePrimitive [own] c m t)
    (hcanon : ∀ v c, encode v = some c → decode c = some v.canon)
    (hback : ∀ v c, decode c = some v → ∃ c', encode v = some c') :
    Implements td (.primitive own fun v c => decode c = some v) where
  reads := by
    rintro m t v bs ⟨hm, contents, hv, hb⟩
    have hr := decodeContents_reads hm hb
    constructor
    · intro rest
      rw [hdec, hr.complete, Outcome.bind_ok, hv]
    · intro p q hq hpq
      rw [hdec, hr.cut p q hq hpq, Outcome.bind_more]
  begins := by
    rintro m t v bs ⟨hm, contents, hv, hb⟩
    exact hb.begins (hm.outerTag_ne_zero hown).1
  encodes := by
    intro v m t hm
    rw [henc]
    cases hv : encode v with
    | none => exact .inl fun _ => rfl
    | some c =>
        right
        have hw := (derWriteTags_emits [own] c.length m false t).and (emits_emit c)
        rw [writtenTags_single hm] at hw
        exact ⟨_, hw, fun hmax =>
          ⟨hm, c, hcanon v c hv, primitive_tagOctets (hm.outerTag_ne_zero hown) hmax⟩⟩
  decoded := by
    intro m t data v n hm hd
    rw [hdec] at hd
    obtain ⟨c, k, hc, hd⟩ := Outcome.bind_eq_ok hd
    cases hv : decode c with
    | none =>
        rw [hv] at hd
        cases hd
    | some w =>
        rw [hv] at hd
        cases hd
        refine ⟨decodeContents_bounds hc, fun _ m' t' hm' => ?_⟩
        obtain ⟨c', hc'⟩ := hback _ _ hv
        rw [henc, hc']
        exact ⟨_, (derWriteTags_emits [own] c'.length m' false t').and (emits_emit c')⟩

end primitive

end Remsim.Ber
