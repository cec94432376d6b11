import Remsim.RsproTables
import Remsim.Tpdu
import Remsim.ComponentId

/-! # RSPRO messages on the wire (`rspro_enc_msg()`, `rspro_dec_msg()`)

* `rsproDecMsg_encoded`: what is encoded is decoded again, whatever follows it, and no proper
  initial part of it is taken for a message.
* `rsproDecMsg_encodes`: the same is true of every encoding that the rules of BER allow, and no two
  of them are alike.
* `rsproEncMsg_eq_none_iff`: encoding fails when the structure cannot be measured, or does not fit.
* `rsproDecMsg_reencodes`: what is decoded can be encoded again, a message without a known
  alternative excepted.
* `rsproDecMsg_hang`, `rsproDecMsg_spins`: the octets on which the decoder does not come back. -/

namespace Remsim.Ber

open Delimited

/-! ### The two functions -/

/-- `der_encode_to_buffer()`: the number of octets, and what it left of the buffer. -/
def derEncodeToBuffer (td : TypeDescriptor) (v : Value) (bufferSize : ℕ) :
    Option (ℕ × EncToBufArg) :=
  (td.derEncoder v .default 0 (some ⟨[], bufferSize⟩)).bind fun (n, cb) =>
    cb.map fun arg => (n, arg)

/-- `rspro_enc_msg()`. -/
def rsproEncMsg (stack : ℕ) (pdu : Value) : Option (List UInt8) :=
  (derEncodeToBuffer (asnDefRsproPDU stack) pdu rsproTailroom).map fun (n, arg) =>
    arg.buffer.take n

/-- `rspro_dec_msg()`; all but `ok` is a `NULL`. -/
def rsproDecMsg (stack : ℕ) : List UInt8 → Outcome Value :=
  (asnDefRsproPDU stack).berDecoder .default

/-- The size of an encoding, measured without a buffer. -/
def measured (stack : ℕ) (pdu : Value) : Option ℕ :=
  ((asnDefRsproPDU stack).derEncoder pdu .default 0 none).map Prod.fst

section messages

variable {stack n : ℕ} {pdu v : Value} {msg data : List UInt8}

theorem rsproPDU_admits : (BerType.rsproPDU stack).Admits .default 0 := trivial

/-- The assertion in `der_encode_to_buffer()` holds. -/
theorem derEncodeToBuffer_emits {td : TypeDescriptor} {bs : List UInt8} {size : ℕ}
    (hw : Emits (td.derEncoder v .default 0) bs) :
    derEncodeToBuffer td v size =
      if size < bs.length then none else some (bs.length, ⟨bs, size - bs.length⟩) := by
  rw [derEncodeToBuffer, hw.write, encodeToBufferCb]
  split_ifs
  · rfl
  · rw [List.nil_append]
    rfl

theorem rsproEncMsg_eq_some_iff : rsproEncMsg stack pdu = some msg ↔
    Emits ((asnDefRsproPDU stack).derEncoder pdu .default 0) msg ∧ msg.length ≤ rsproTailroom := by
  obtain href | ⟨bs, hw, -⟩ := (rsproPDU_implements stack).encodes pdu rsproPDU_admits
  · constructor
    · intro h
      rw [rsproEncMsg, derEncodeToBuffer, href] at h
      cases h
    · exact fun h => absurd href h.1.not_refuses
  · rw [rsproEncMsg, derEncodeToBuffer_emits hw]
    constructor
    · intro h
      by_cases hlen : rsproTailroom < bs.length
      · rw [if_pos hlen] at h
        cases h
      · rw [if_neg hlen, Option.map_some] at h
        obtain rfl : bs = msg := by
          rw [← Option.some.inj h]
          exact (List.take_length).symm
        exact ⟨hw, Nat.le_of_not_lt hlen⟩
    · rintro ⟨hw', hlen⟩
      have heq : bs = msg := by
        -- an encoder that writes two lists with room for both writes the same
        have h₁ := hw.write ⟨[], bs.length + msg.length⟩
        rw [hw'.write, encodeToBufferCb, encodeToBufferCb, if_neg (by dsimp only; omega),
          if_neg (by dsimp only; omega)] at h₁
        simp only [Option.map_some, Option.some.injEq, Prod.mk.injEq, EncToBufArg.mk.injEq,
          List.nil_append] at h₁
        exact h₁.2.1.symm
      rw [heq, if_neg (Nat.not_lt.mpr hlen), Option.map_some]
      exact congrArg some List.take_length

/-- A message is an encoding of the structure that it was made of. -/
theorem rsproEncMsg_reads (h : rsproEncMsg stack pdu = some msg) :
    Reads (rsproDecMsg stack) msg pdu.canon := by
  obtain ⟨hw, hlen⟩ := rsproEncMsg_eq_some_iff.mp h
  obtain href | ⟨bs, hw', henc⟩ := (rsproPDU_implements stack).encodes pdu rsproPDU_admits
  · exact absurd href hw.not_refuses
  · have hfits : bs.length ≤ rsproTailroom := by
      have := hw.estimate
      rw [hw'.estimate] at this
      simp only [Option.some.injEq, Prod.mk.injEq] at this
      omega
    obtain rfl : bs = msg := by
      have := rsproEncMsg_eq_some_iff.mpr ⟨hw', hfits⟩
      rw [h] at this
      exact (Option.some.inj this).symm
    refine (rsproPDU_implements stack).reads (henc ?_)
    have : rsproTailroom = 1016 := rfl
    omega

/-- **What is encoded is decoded again**: the message is taken for the structure that it was made
of, whatever follows it, and while some of it is missing the decoder asks for more. -/
theorem rsproDecMsg_encoded (h : rsproEncMsg stack pdu = some msg) :
    (∀ rest, rsproDecMsg stack (msg ++ rest) = .ok pdu.canon msg.length) ∧
      ∀ k < msg.length, rsproDecMsg stack (msg.take k) = .more :=
  ⟨(rsproEncMsg_reads h).complete, fun _ hk => (rsproEncMsg_reads h).take hk⟩

/-- `rspro_gen_ResetStateReq()` without a tag. -/
def resetStateReq : Value :=
  .struct [some (.long 2), some (.long 0), some (.choice 14 (some (.struct [])))]

theorem resetStateReq_decoded :
    rsproEncMsg 16 resetStateReq = some [0x30, 0x0a, 0x80, 0x01, 0x02, 0x81, 0x01, 0x00, 0xa2, 0x02,
        0xb3, 0x00] ∧
      rsproDecMsg 16 [0x30, 0x0a, 0x80, 0x01, 0x02, 0x81, 0x01, 0x00, 0xa2, 0x02, 0xb3, 0x00] =
        .ok resetStateReq.canon 12 := by
  have henc : rsproEncMsg 16 resetStateReq = some [0x30, 0x0a, 0x80, 0x01, 0x02, 0x81, 0x01, 0x00,
      0xa2, 0x02, 0xb3, 0x00] := by
    decide +kernel
  exact ⟨henc, (rsproDecMsg_encoded henc).1 []⟩

theorem resetStateReq_tag : asnDefOperationTag.type.Encodes .implicit (context 1) (.long 0)
    [0x81, 0x01, 0x00] :=
  ⟨by decide, [0x00], ⟨0, rfl, by decide⟩, [0x81], [0x01],
    .short (o := 0x81) (by decide) (by decide), .short (by decide), rfl⟩

theorem resetStateReq_alternative : Alternative (table (rsproPDUchoiceFields 16))
    (.choice 14 (some (.struct []))) [0xb3, 0x00] :=
  ⟨13, _, _, rfl, rfl, (by decide : IsTag (context 19)), [], [], [], rfl, rfl, .nil, .inl rfl,
    .definite (h := [0xb3]) (l := [0x00]) (.short (o := 0xb3) (by decide) (by decide))
      (.short (by decide))⟩

/-- **When there is no message**: a part of the structure is missing or out of range, so that it
cannot be measured, or it is longer than the buffer. -/
theorem rsproEncMsg_eq_none_iff : rsproEncMsg stack pdu = none ↔
    measured stack pdu = none ∨ ∃ size, measured stack pdu = some size ∧ rsproTailroom < size := by
  obtain href | ⟨bs, hw, -⟩ := (rsproPDU_implements stack).encodes pdu rsproPDU_admits
  · refine ⟨fun _ => .inl ?_, fun _ => ?_⟩
    · rw [measured, href, Option.map_none]
    · rw [rsproEncMsg, derEncodeToBuffer, href]
      rfl
  · have hm : measured stack pdu = some bs.length := by rw [measured, hw.estimate, Option.map_some]
    rw [hm, rsproEncMsg, derEncodeToBuffer_emits hw]
    constructor
    · intro h
      refine .inr ⟨bs.length, rfl, ?_⟩
      by_contra hlen
      rw [if_neg hlen] at h
      cases h
    · rintro (h | ⟨size, hs, hlen⟩)
      · cases h
      · obtain rfl := Option.some.inj hs
        rw [if_pos hlen, Option.map_none]

/-- **What is decoded can be encoded again**, to a message that is decoded to the same, unless it is
longer than the buffer or has an alternative that is unknown. -/
theorem rsproDecMsg_reencodes (h : rsproDecMsg stack data = .ok v n) (hknown : v.known = true) :
    n ≤ data.length ∧ ∃ size, measured stack v = some size ∧
      (size ≤ rsproTailroom → ∃ msg, rsproEncMsg stack v = some msg ∧ msg.length = size ∧
        Reads (rsproDecMsg stack) msg v.canon) := by
  obtain ⟨hlen, hagain⟩ := (rsproPDU_implements stack).decoded rsproPDU_admits h
  obtain ⟨bs, hw⟩ := hagain hknown .default 0 rsproPDU_admits
  refine ⟨hlen, bs.length, by rw [measured, hw.estimate, Option.map_some], fun hfits => ?_⟩
  have hmsg := rsproEncMsg_eq_some_iff.mpr ⟨hw, hfits⟩
  exact ⟨bs, hmsg, rfl, rsproEncMsg_reads hmsg⟩

/-- A message with a superfluous octet in its version is shorter when it is encoded again. -/
theorem resetStateReq_reencodes :
    ∃ msg, rsproDecMsg 16 [0x30, 0x0b, 0x80, 0x02, 0x00, 0x02, 0x81, 0x01, 0x00, 0xa2, 0x02, 0xb3,
        0x00] = .ok resetStateReq 13 ∧
      rsproEncMsg 16 resetStateReq = some msg ∧ msg.length = 12 ∧
        Reads (rsproDecMsg 16) msg resetStateReq.canon := by
  have hdec : rsproDecMsg 16 [0x30, 0x0b, 0x80, 0x02, 0x00, 0x02, 0x81, 0x01, 0x00, 0xa2, 0x02,
      0xb3, 0x00] = .ok resetStateReq 13 := rfl
  obtain ⟨-, size, hsize, hmsg⟩ := rsproDecMsg_reencodes hdec rfl
  obtain rfl : 12 = size := Option.some.inj (hsize.symm.trans rfl).symm
  obtain ⟨msg, henc, hlen, hreads⟩ := hmsg (by decide)
  exact ⟨msg, hdec, henc, hlen, hreads⟩

end messages

/-! ### Octets that keep the decoder -/

section hangs

variable {stack : ℕ} {data : List UInt8}

theorem rsproPDUchoice_ok : ChoiceOk (table (rsproPDUchoiceFields stack)) rsproPDUchoiceSpecs ∧
    Tagged (rsproPDUchoiceFields stack) ∧ Plain (rsproPDUchoiceFields stack) :=
  of_decide_eq_true rfl

/-- **Where the decoder does not come back**: inside of the datagram a message has an explicit tag
of indefinite length, and behind an alternative that is decoded stands a zero octet that is followed
by another one than zero. -/
theorem rsproDecMsg_hang (h : rsproDecMsg stack data = .hang) :
    ∃ tag hd b x rest i v, berFetchTag (hd ++ 0x80 :: (b ++ 0 :: x :: rest)) = .ok tag hd.length ∧
      x ≠ 0 ∧ hd ++ 0x80 :: (b ++ 0 :: x :: rest) <:+: data ∧
      (asnDefRsproPDUchoice stack).descriptor.berDecoder .default (b ++ 0 :: x :: rest) =
        .ok (.choice (i + 1) (some v)) b.length := by
  obtain ⟨e, he, inner, hin, hhang⟩ := sequence_hang h
  obtain ⟨f, hf, rfl⟩ := List.mem_map.mp he
  obtain ⟨-, htagged, hplain⟩ := @rsproPDUchoice_ok stack
  simp only [rsproPDUFields, List.mem_cons, List.not_mem_nil, or_false] at hf
  rcases hf with rfl | rfl | rfl
  · exact absurd hhang (returns_nativeInteger _ _ _)
  · exact absurd hhang (returns_nativeInteger _ _ _)
  · obtain ⟨tag, hd, b, x, rest, i, v, -, hfetch, rfl, hx, hdec⟩ :=
      (choice_hang_iff table_implements (table_admits htagged)
        (table_returns htagged hplain)).mp hhang
    exact ⟨tag, hd, b, x, rest, i, v, hfetch, hx, hin, hdec⟩

/-- The alternative of a `ResetStateReq` with a one behind a zero. -/
theorem resetStateReq_hang : ∃ tag hd b x rest i v,
    berFetchTag (hd ++ 0x80 :: (b ++ 0 :: x :: rest)) = .ok tag hd.length ∧ x ≠ 0 ∧
      hd ++ 0x80 :: (b ++ 0 :: x :: rest) <:+: [0x30, 0x0c, 0x80, 0x01, 0x02, 0x81, 0x01, 0x00,
        0xa2, 0x80, 0xb3, 0x00, 0x00, 0x01] ∧
      (asnDefRsproPDUchoice 16).descriptor.berDecoder .default (b ++ 0 :: x :: rest) =
        .ok (.choice (i + 1) (some v)) b.length :=
  rsproDecMsg_hang rfl

/-- **There are such datagrams for every message**: behind any version, tag and alternative, in a
frame of either form of length. -/
theorem rsproDecMsg_spins {version tag v : Value} {bVersion bTag hd b rest bs : List UInt8}
    {x : UInt8}
    (hVersion : asnDefNativeInteger.type.Encodes .implicit (context 0) version bVersion)
    (hTag : asnDefOperationTag.type.Encodes .implicit (context 1) tag bTag)
    (hi : Identifier true (context 2) hd)
    (ha : Alternative (table (rsproPDUchoiceFields stack)) v b) (hx : x ≠ 0)
    (hbs : Constructed (universal 16)
      (bVersion ++ (bTag ++ (hd ++ [0x80] ++ (b ++ 0 :: x :: rest)))) bs) :
    rsproDecMsg stack bs = .hang := by
  have ok := (rsproPDU_ok stack).1
  have himp := @table_implements (rsproPDUFields stack)
  generalize hc : bVersion ++ (bTag ++ (hd ++ [0x80] ++ (b ++ 0 :: x :: rest))) = c at hbs
  -- the loop over the members, wherever the contents stand
  have hloop : ∀ {f : Frame} {k fuel : ℕ} {st : List (Option Value)}, InFrame f c k →
      decodeMembers stack (table (rsproPDUFields stack)).elements rsproPDUSpecs (fuel + 3) 0 st f =
        .hang := by
    intro f k fuel st hf
    rw [← hc] at hf
    have hf₁ := hf.advance
    have hf₂ := hf₁.advance
    rw [decodeMembers_next (j := 0) (e := (Field.noFlags (context 0) .implicit
        asnDefNativeInteger).member) ok asnDefNativeInteger.implements rfl le_rfl
        (fun i hi => absurd hi (Nat.not_lt_zero i)) hVersion hf,
      decodeMembers_next (j := 1) (e := (Field.noFlags (context 1) .implicit
        asnDefOperationTag).member) ok asnDefOperationTag.implements rfl le_rfl
        (fun i hi hle => absurd hi (Nat.not_lt.mpr hle)) hTag hf₁]
    generalize (f.advance bVersion.length).advance bTag.length = g at hf₂
    have hg : InFrame g ((hd ++ [0x80] ++ (b ++ 0 :: x :: rest)) ++ []) k := by
      rwa [List.append_nil]
    obtain ⟨⟨w, hw⟩, y, hd'⟩ := hg.append
    have hwin : g.window = hd ++ [0x80] ++ (b ++ 0 :: x :: (rest ++ w)) := by
      rw [hw, List.append_assoc (hd ++ [0x80]), List.append_assoc b]
      rfl
    rw [List.append_assoc, List.append_assoc] at hw hd'
    obtain ⟨hhalf, hend⟩ := hi.not_end (by decide) hw hd'
    have hfetch : berFetchTag g.window = .ok (context 2) hd.length := by
      rw [hw]
      exact hi.reads.complete _
    have hne : hd ++ [0x80] ++ (b ++ 0 :: x :: rest) ≠ [] := by
      rw [List.append_assoc]
      exact fun hnil => hi.reads.ne_nil rfl (List.append_eq_nil_iff.mp hnil).1
    have hstuck :
        (asnDefRsproPDUchoice stack).descriptor.berDecoder .explicit g.window = .hang := by
      rw [hwin]
      exact choice_spins rsproPDUchoice_ok.1 table_implements hi ha hx
    rw [decodeMembers_found (j := 2) (e := (Field.noFlags (context 2) .explicit
        (asnDefRsproPDUchoice stack)).member) ok rfl le_rfl
        (fun i hi hle => absurd hi (Nat.not_lt.mpr hle)) hfetch (List.mem_singleton_self _) hhalf
        hend (hg.left_ne_zero hne)]
    show (((asnDefRsproPDUchoice stack).descriptor.berDecoder .explicit
      g.window).within g.sizeViolation).bind _ = _
    rw [hstuck, Outcome.within_hang, Outcome.bind_hang]
  have hbs' : Constructed (outerTag (universal 16) .default 0) c bs := hbs
  obtain ⟨f, k, hf, -, hrun⟩ := @sequence_complete stack _ _ rsproPDUSpecs _ _
    (table (rsproPDUFields stack)).elements _ (show SingleTag .default 0 from trivial) hbs' []
  rw [List.append_nil] at hrun
  have hfuel : (table (rsproPDUFields stack)).elements.length + bs.length + 1 =
      (bs.length + 1) + 3 := by
    show 3 + bs.length + 1 = _
    omega
  show (asnDefRsproPDU stack).berDecoder .default bs = _
  rw [asnDefRsproPDU, hrun, hfuel, hloop hf, Outcome.bind_hang]

/-- The same in an outer frame of indefinite length. -/
theorem resetStateReq_spins : rsproDecMsg 16 [0x30, 0x80, 0x80, 0x01, 0x02, 0x81, 0x01, 0x00, 0xa2,
    0x80, 0xb3, 0x00, 0x00, 0x01, 0x00, 0x00] = .hang := by
  have hVersion : (BerType.integer (universal 2)).Encodes .implicit (context 0) (.long 2)
      [0x80, 0x01, 0x02] :=
    ⟨by decide, [0x02], ⟨2, rfl, by decide⟩, [0x80], [0x01],
      .short (o := 0x80) (by decide) (by decide), .short (by decide), rfl⟩
  have hFrame : Constructed (universal 16) ([0x80, 0x01, 0x02] ++ ([0x81, 0x01, 0x00] ++
      ([0xa2] ++ [0x80] ++ ([0xb3, 0x00] ++ 0 :: 0x01 :: []))))
      ([0x30] ++ [0x80] ++ _ ++ [0, 0]) :=
    .indefinite (.short (o := 0x30) (by decide) (by decide))
  exact rsproDecMsg_spins hVersion resetStateReq_tag (.short (o := 0xa2) (by decide) (by decide))
    resetStateReq_alternative (by decide) hFrame

end hangs

end Remsim.Ber
