import Remsim.BerTags

/-! # INTEGER and ENUMERATED in a `long` (`INTEGER.c`, `NativeInteger.c`)

The contents octets of an integer are a number in two's complement, of any length
(`twosComplement`).  `asn_INTEGER2long()` takes off the octets in front that only repeat the sign
and shifts the rest into a `long`; `asnInteger2long_eq_some` says that the result is the number,
and that it fails for the numbers that are no `long` and for no others. -/

namespace Remsim.Ber

open Delimited

/-- One round of the conversion: the number is shifted, and the octet put in. -/
def shiftOctet (l : Int64) (o : UInt8) : Int64 := (l <<< 8) ||| Int64.ofNat o.toNat

/-- `asn_INTEGER2long()`: octets that only repeat the sign may stand in front. -/
def asnInteger2long (buf : List UInt8) : Option Int64 :=
  let b := if 8 < buf.length then Der.canonical buf else buf
  if 8 < b.length then none
  else
    match b with
    | [] => some 0
    | o :: _ =>
        some (b.foldl shiftOctet (if 128 ≤ o.toNat then -1 else 0))

/-- `NativeInteger_decode_ber()`. -/
def nativeIntegerDecodeBer (tags : List ℕ) (tagMode : TagMode) (bufPtr : List UInt8) :
    Outcome Value :=
  (decodeContents tags tagMode bufPtr).bind fun contents consumed =>
    match asnInteger2long contents with
    | none => .fail
    | some l => .ok (.long l) consumed

/-- `NativeInteger_encode_der()` with `INTEGER_encode_der()`. -/
def nativeIntegerEncodeDer (tags : List ℕ) (v : Value) (tagMode : TagMode) (tag : ℕ) : Encoder :=
  match v with
  | .long native => derEncodePrimitive tags (Der.integerOctets native.toInt) tagMode tag
  | _ => fun _ => none

/-- The descriptor of an INTEGER or ENUMERATED type. -/
def nativeInteger (tags : List ℕ) : TypeDescriptor where
  tags := tags
  berDecoder := nativeIntegerDecodeBer tags
  derEncoder := nativeIntegerEncodeDer tags

/-! ### Two's complement -/

/-- Octets shifted in behind a number. -/
def shiftIn (v : ℤ) (l : List UInt8) : ℤ := l.foldl (fun v o => 256 * v + o.toNat) v

/-- **The number that contents octets stand for.** -/
def twosComplement : List UInt8 → ℤ
  | [] => 0
  | o :: l => shiftIn (if 128 ≤ o.toNat then -1 else 0) (o :: l)

section twos

variable {l : List UInt8} {v : ℤ}

theorem shiftIn_cons (v : ℤ) (o : UInt8) (l : List UInt8) :
    shiftIn v (o :: l) = shiftIn (256 * v + o.toNat) l := rfl

theorem shiftIn_bounds (v : ℤ) (l : List UInt8) :
    v * 256 ^ l.length ≤ shiftIn v l ∧ shiftIn v l < (v + 1) * 256 ^ l.length := by
  induction l generalizing v with
  | nil =>
      rw [List.length_nil, pow_zero, mul_one, mul_one]
      exact ⟨le_rfl, Int.lt_succ v⟩
  | cons o l ih =>
      have ho := o.toNat_lt
      obtain ⟨hlo, hhi⟩ := ih (256 * v + o.toNat)
      have hpow : (0 : ℤ) < 256 ^ l.length := by positivity
      rw [shiftIn_cons, List.length_cons, pow_succ']
      constructor
      · calc v * (256 * 256 ^ l.length) = (256 * v) * 256 ^ l.length := by ring
          _ ≤ (256 * v + o.toNat) * 256 ^ l.length := by
            apply Int.mul_le_mul_of_nonneg_right _ hpow.le
            omega
          _ ≤ shiftIn (256 * v + o.toNat) l := hlo
      · calc shiftIn (256 * v + o.toNat) l < (256 * v + o.toNat + 1) * 256 ^ l.length := hhi
          _ ≤ (256 * (v + 1)) * 256 ^ l.length := by
            apply Int.mul_le_mul_of_nonneg_right _ hpow.le
            omega
          _ = (v + 1) * (256 * 256 ^ l.length) := by ring

/-- The octets in front that only repeat the sign do not count. -/
theorem twosComplement_canonical (l : List UInt8) :
    twosComplement (Der.canonical l) = twosComplement l := by
  induction l using Der.canonical.induct with
  | case1 a b rest h ih =>
      rw [Der.canonical, if_pos h, ih, twosComplement, twosComplement, shiftIn_cons _ a]
      obtain ⟨rfl, hb⟩ | ⟨rfl, hb⟩ := h
      · have hb' : ¬128 ≤ b.toNat := Nat.not_le.mpr hb
        rw [if_neg hb', if_neg (by decide)]
        rfl
      · have hb' : 128 ≤ b.toNat := hb
        rw [if_pos hb', if_pos (by decide)]
        rfl
  | case2 a b rest h => rw [Der.canonical, if_neg h]
  | case3 l hl => rw [Der.canonical.eq_2 l hl]

theorem canonical_head {a b : UInt8} {rest : List UInt8} (h : Der.canonical l = a :: b :: rest) :
    ¬((a = 0 ∧ b < 0x80) ∨ (a = 0xff ∧ 0x80 ≤ b)) := by
  induction l using Der.canonical.induct with
  | case1 a' b' rest' hs ih =>
      rw [Der.canonical, if_pos hs] at h
      exact ih h
  | case2 a' b' rest' hs =>
      rw [Der.canonical, if_neg hs] at h
      cases h
      exact hs
  | case3 l' hl =>
      rw [Der.canonical.eq_2 l' hl] at h
      exact absurd h (hl _ _ _)

theorem inRange_of_length (h : l.length ≤ 8) :
    -2 ^ 63 ≤ twosComplement l ∧ twosComplement l < 2 ^ 63 := by
  cases l with
  | nil => exact ⟨by decide, by decide⟩
  | cons o l =>
      have ho := o.toNat_lt
      have hpow : (256 : ℤ) ^ l.length ≤ 256 ^ 7 := by
        apply pow_le_pow_right₀ (by decide)
        rw [List.length_cons] at h
        omega
      have hpos : (0 : ℤ) < 256 ^ l.length := by positivity
      rw [twosComplement, shiftIn_cons]
      obtain ⟨hlo, hhi⟩ := shiftIn_bounds (256 * (if 128 ≤ o.toNat then -1 else 0) + o.toNat) l
      have h7 : (256 : ℤ) ^ 7 = 2 ^ 56 := by norm_num
      rw [h7] at hpow
      split_ifs at hlo hhi ⊢
      · constructor
        · nlinarith
        · nlinarith
      · constructor
        · nlinarith
        · nlinarith

/-- More than eight octets without a superfluous one are no `long`. -/
theorem not_inRange_of_length (h : 8 < (Der.canonical l).length) :
    ¬(-2 ^ 63 ≤ twosComplement l ∧ twosComplement l < 2 ^ 63) := by
  rw [← twosComplement_canonical]
  generalize hc : Der.canonical l = c at h
  obtain ⟨a, b, rest, rfl⟩ : ∃ a b rest, c = a :: b :: rest := by
    rcases c with _ | ⟨a, _ | ⟨b, rest⟩⟩
    · exact absurd h (Nat.not_lt_zero _)
    · rw [List.length_singleton] at h
      omega
    · exact ⟨a, b, rest, rfl⟩
  have hhead := canonical_head hc
  have ha := a.toNat_lt
  have hb := b.toNat_lt
  have hpow : (256 : ℤ) ^ 7 ≤ 256 ^ rest.length := by
    apply pow_le_pow_right₀ (by decide)
    simp only [List.length_cons] at h
    omega
  have h7 : (256 : ℤ) ^ 7 = 2 ^ 56 := by norm_num
  rw [h7] at hpow
  rw [twosComplement, shiftIn_cons, shiftIn_cons]
  obtain ⟨hlo, hhi⟩ := shiftIn_bounds
    (256 * (256 * (if 128 ≤ a.toNat then -1 else 0) + a.toNat) + b.toNat) rest
  by_cases hneg : 128 ≤ a.toNat
  · rw [if_pos hneg] at hlo hhi ⊢
    have hsmall : 256 * (256 * (-1) + (a.toNat : ℤ)) + b.toNat + 1 ≤ -128 := by
      by_cases haff : a = 0xff
      · have hb' : ¬(0x80 : UInt8) ≤ b := fun hb' => hhead (.inr ⟨haff, hb'⟩)
        have hb'' : b.toNat < 128 := Nat.not_le.mp hb'
        have ha' : a.toNat = 255 := by rw [haff]; rfl
        omega
      · have ha' : a.toNat ≠ 255 := fun h => haff (UInt8.toNat_inj.mp h)
        omega
    rintro ⟨hlow, -⟩
    nlinarith
  · rw [if_neg hneg] at hlo hhi ⊢
    have hbig : 128 ≤ 256 * (256 * 0 + (a.toNat : ℤ)) + b.toNat := by
      by_cases ha0 : a = 0
      · have hb' : ¬b < (0x80 : UInt8) := fun hb' => hhead (.inl ⟨ha0, hb'⟩)
        have hb'' : 128 ≤ b.toNat := Nat.not_lt.mp hb'
        omega
      · have ha' : a.toNat ≠ 0 := fun h => ha0 (UInt8.toNat_inj.mp h)
        omega
    rintro ⟨-, hhigh⟩
    nlinarith

/-! ### In a `long` -/

theorem shiftOctet_ofInt (v : ℤ) (o : UInt8) :
    shiftOctet (Int64.ofInt v) o = Int64.ofInt (256 * v + o.toNat) := by
  have ho := o.toNat_lt
  have hmul : shiftOctet (Int64.ofInt v) o = 256 * Int64.ofInt v + Int64.ofNat o.toNat := by
    generalize Int64.ofInt v = l
    unfold shiftOctet
    apply Int64.toBitVec_inj.mp
    apply BitVec.eq_of_toNat_eq
    have hsplit : l.toBitVec.toNat * 2 ^ 8 % 18446744073709551616 =
        2 ^ 8 * (l.toBitVec.toNat % 2 ^ 56) := by omega
    have hor := Nat.two_pow_add_eq_or_of_lt ho (l.toBitVec.toNat % 2 ^ 56)
    simp only [Int64.toBitVec_or, Int64.toBitVec_shiftLeft, Int64.toBitVec_ofNat,
      BitVec.ofNat_eq_ofNat, BitVec.reduceSMod, BitVec.shiftLeft_eq', BitVec.toNat_ofNat,
      Nat.reducePow, Nat.reduceMod, Int64.toBitVec_ofNat', BitVec.toNat_or,
      BitVec.toNat_shiftLeft, UInt8.toNat_mod_uInt64Size, Int64.toBitVec_add, Int64.toBitVec_mul,
      BitVec.toNat_add, BitVec.toNat_mul, Nat.mod_add_mod]
    rw [Nat.shiftLeft_eq, hsplit, ← hor]
    omega
  rw [hmul, Int64.ofInt_add, Int64.ofInt_mul]
  rfl

theorem foldl_shiftOctet (v : ℤ) (b : List UInt8) :
    b.foldl shiftOctet (Int64.ofInt v) = Int64.ofInt (shiftIn v b) := by
  induction b generalizing v with
  | nil => rfl
  | cons o b ih => rw [List.foldl_cons, shiftOctet_ofInt, ih, shiftIn_cons]

theorem convert_eq (o : UInt8) (b : List UInt8) :
    (o :: b).foldl shiftOctet (if 128 ≤ o.toNat then -1 else 0) =
      Int64.ofInt (twosComplement (o :: b)) := by
  have hinit : (if 128 ≤ o.toNat then -1 else 0 : Int64) =
      Int64.ofInt (if 128 ≤ o.toNat then -1 else 0) := by
    split_ifs <;> rfl
  rw [hinit, foldl_shiftOctet]
  rfl

/-- At most eight octets are converted without loss. -/
theorem ofInt_twosComplement {v : Int64} (h : l.length ≤ 8) :
    Int64.ofInt (twosComplement l) = v ↔ twosComplement l = v.toInt := by
  obtain ⟨hlo, hhi⟩ := inRange_of_length h
  have hback := Int64.toInt_ofInt_of_le hlo hhi
  constructor
  · intro hv
    rw [← hv, hback]
  · intro hv
    rw [hv, Int64.ofInt_toInt]

/-- **`asn_INTEGER2long()` delivers the number that the octets stand for**, and fails exactly when
that is no `long`. -/
theorem asnInteger2long_eq_some (buf : List UInt8) (v : Int64) :
    asnInteger2long buf = some v ↔ twosComplement buf = v.toInt := by
  have hb : ∃ b, (if 8 < buf.length then Der.canonical buf else buf) = b ∧
      twosComplement b = twosComplement buf ∧ (8 < b.length → b = Der.canonical buf) := by
    split_ifs with hlen
    · exact ⟨_, rfl, twosComplement_canonical buf, fun _ => rfl⟩
    · exact ⟨_, rfl, rfl, fun h => absurd h hlen⟩
  obtain ⟨b, hb, htwos, hcanon⟩ := hb
  unfold asnInteger2long
  simp only [hb]
  by_cases hlen : 8 < b.length
  · rw [if_pos hlen, ← htwos]
    constructor
    · intro h
      cases h
    · intro h
      have hout := not_inRange_of_length (by rwa [← hcanon hlen] : 8 < (Der.canonical buf).length)
      rw [← htwos, h] at hout
      exact absurd ⟨v.le_toInt, v.toInt_lt⟩ hout
  · rw [if_neg hlen, ← htwos, ← ofInt_twosComplement (Nat.not_lt.mp hlen)]
    cases b with
    | nil => exact Option.some_inj
    | cons o b =>
        simp only [convert_eq]
        exact Option.some_inj

theorem octet_eq (v : ℤ) {i : ℕ} (hi : i < 8) :
    ((UInt8.ofNat ((v % 2 ^ 64).toNat / 256 ^ i)).toNat : ℤ) = v / 256 ^ i % 256 := by
  rw [UInt8.toNat_ofNat']
  interval_cases i <;> omega

theorem shiftIn_octets (v : ℤ) {k : ℕ} (hk : k ≤ 8) :
    shiftIn (v / 256 ^ k)
      ((List.range k).reverse.map fun i => .ofNat ((v % 2 ^ 64).toNat / 256 ^ i)) = v := by
  induction k with
  | zero =>
      rw [pow_zero, Int.ediv_one]
      rfl
  | succ k ih =>
      have hdiv : v / 256 ^ k / 256 = v / 256 ^ (k + 1) := by
        rw [pow_succ, Int.ediv_ediv_of_nonneg (by positivity)]
      rw [List.range_succ, List.reverse_append, List.reverse_singleton, List.singleton_append,
        List.map_cons, shiftIn_cons, octet_eq v (by omega), ← hdiv, Int.mul_ediv_add_emod]
      exact ih (by omega)

/-- **The octets that are written stand for the number.** -/
theorem twosComplement_integerOctets (v : Int64) :
    twosComplement (Der.integerOctets v.toInt) = v.toInt := by
  have hlo := v.le_toInt
  have hhi := v.toInt_lt
  have hall := shiftIn_octets v.toInt (le_refl 8)
  have htop := octet_eq v.toInt (show 7 < 8 by decide)
  have hcons : Der.octets64 v.toInt = .ofNat ((v.toInt % 2 ^ 64).toNat / 256 ^ 7) ::
      (List.range 7).reverse.map fun i => .ofNat ((v.toInt % 2 ^ 64).toNat / 256 ^ i) := rfl
  have hsign : (if 128 ≤ (UInt8.ofNat ((v.toInt % 2 ^ 64).toNat / 256 ^ 7)).toNat then -1 else 0) =
      v.toInt / 256 ^ 8 := by
    split_ifs <;> omega
  rw [Der.integerOctets, twosComplement_canonical, hcons, twosComplement, hsign, ← hcons]
  exact hall

end twos

/-! ### The type -/

/-- INTEGER and ENUMERATED: the contents octets of a number. -/
def BerType.integer (own : ℕ) : BerType :=
  .primitive own fun v c => ∃ l, v = .long l ∧ twosComplement c = l.toInt

/-- The contents octets of a number that a `long` holds, in any length, are what the decoder takes;
the shortest ones are what the encoder writes. -/
theorem nativeInteger_implements {own : ℕ} (hown : IsTag own) :
    Implements (nativeInteger [own]) (.integer own) := by
  have hR : (fun (v : Value) (c : List UInt8) => ∃ l, v = .long l ∧ twosComplement c = l.toInt) =
      fun v c => (asnInteger2long c).map Value.long = some v := by
    funext v c
    apply propext
    rw [Option.map_eq_some_iff]
    constructor
    · rintro ⟨l, rfl, hl⟩
      exact ⟨l, (asnInteger2long_eq_some c l).mpr hl, rfl⟩
    · rintro ⟨l, hl, rfl⟩
      exact ⟨l, rfl, (asnInteger2long_eq_some c l).mp hl⟩
  have himp := @implements_primitive own (nativeInteger [own])
    (fun c => (asnInteger2long c).map Value.long)
    (fun v => match v with | .long l => some (Der.integerOctets l.toInt) | _ => none) hown
  rw [BerType.integer, hR]
  apply himp
  · intro m data
    show nativeIntegerDecodeBer [own] m data = _
    unfold nativeIntegerDecodeBer
    congr 1
    funext c n
    cases asnInteger2long c <;> rfl
  · intro v m t
    cases v <;> rfl
  · intro v c hv
    cases v with
    | long l =>
        cases hv
        have hl := (asnInteger2long_eq_some _ l).mpr (twosComplement_integerOctets l)
        rw [hl]
        rfl
    | boolean _ => cases hv
    | octets _ => cases hv
    | struct _ => cases hv
    | choice _ _ => cases hv
  · intro v c hv
    obtain ⟨l, -, rfl⟩ := Option.map_eq_some_iff.mp hv
    exact ⟨_, rfl⟩

theorem returns_nativeInteger (tags : List ℕ) (m : TagMode) :
    Returns ((nativeInteger tags).berDecoder m) := by
  intro data h
  obtain h | ⟨c, n, -, h⟩ := Outcome.bind_eq_hang h
  · exact returns_decodeContents _ _ _ h
  · cases hc : asnInteger2long c with
    | none =>
        rw [hc] at h
        cases h
    | some l =>
        rw [hc] at h
        cases h

end Remsim.Ber
