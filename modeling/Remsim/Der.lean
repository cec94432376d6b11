import Mathlib

/-! # DER encodings and their lengths

Tag-length-value encodings with one tag octet, as lists of octets.  `lengthOctets` and `integer` are
given by their algorithms: base 256 digits behind a count, and the octets of a 64-bit two's
complement number without the superfluous leading ones.  A buffer is offered for an encoding, so
lengths are what matters here: `length_tlv`, with bounds for the length octets. -/

namespace Der

/-- The length octets: one up to 127, else their number with the top bit set, and the digits. -/
def lengthOctets (n : ℕ) : List UInt8 :=
  if n ≤ 127 then [.ofNat n]
  else
    let digits := (Nat.digits 256 n).reverse.map UInt8.ofNat
    (0x80 ||| .ofNat digits.length) :: digits

/-- Tag, length and contents. -/
def tlv (tag : UInt8) (contents : List UInt8) : List UInt8 :=
  tag :: (lengthOctets contents.length ++ contents)

/-- The octets of a 64-bit number, most significant first. -/
def octets64 (v : ℤ) : List UInt8 :=
  (List.range 8).reverse.map fun i => .ofNat ((v % 2 ^ 64).toNat / 256 ^ i)

/-- Leading octets that only repeat the sign are removed. -/
def canonical : List UInt8 → List UInt8
  | a :: b :: rest =>
      if (a = 0 ∧ b < 0x80) ∨ (a = 0xff ∧ 0x80 ≤ b) then canonical (b :: rest) else a :: b :: rest
  | l => l

/-- The contents octets of an integer. -/
def integerOctets (v : ℤ) : List UInt8 := canonical (octets64 v)

/-- `INTEGER`. -/
def integer (tag : UInt8) (v : ℤ) : List UInt8 := tlv tag (integerOctets v)

/-- `BOOLEAN`. -/
def boolean (b : Bool) : List UInt8 := tlv 0x01 [if b then 0xff else 0x00]

/-- `OCTET STRING`. -/
def octetString (data : List UInt8) : List UInt8 := tlv 0x04 data

/-! ### Lengths -/

variable {n : ℕ}

theorem length_lengthOctets (hn : 127 < n) :
    (lengthOctets n).length = (Nat.digits 256 n).length + 1 := by
  unfold lengthOctets
  rw [if_neg (Nat.not_le.mpr hn)]
  simp only [List.length_cons, List.length_map, List.length_reverse]

theorem lengthOctets_short (hn : n ≤ 127) : (lengthOctets n).length = 1 := by
  unfold lengthOctets
  rw [if_pos hn]
  rfl

theorem lengthOctets_le (hn : n < 65536) : (lengthOctets n).length ≤ 3 := by
  by_cases hs : n ≤ 127
  · rw [lengthOctets_short hs]
    omega
  · have hd : (Nat.digits 256 n).length ≤ 2 := (Nat.digits_length_le_iff (by omega) n).mpr (by omega)
    rw [length_lengthOctets (Nat.not_le.mp hs)]
    omega

theorem le_lengthOctets (hn : 256 ≤ n) : 3 ≤ (lengthOctets n).length := by
  have hd : ¬(Nat.digits 256 n).length ≤ 1 := by
    rw [Nat.digits_length_le_iff (by omega)]
    omega
  rw [length_lengthOctets (by omega)]
  omega

@[simp] theorem length_tlv (tag : UInt8) (contents : List UInt8) :
    (tlv tag contents).length =
      1 + (lengthOctets contents.length).length + contents.length := by
  unfold tlv
  rw [List.length_cons, List.length_append]
  omega

theorem length_tlv_short {tag : UInt8} {contents : List UInt8} (h : contents.length ≤ 127) :
    (tlv tag contents).length = 2 + contents.length := by
  rw [length_tlv, lengthOctets_short h]

@[simp] theorem length_boolean (b : Bool) : (boolean b).length = 3 :=
  length_tlv_short (Nat.le_add_left 1 126)

theorem canonical_length (l : List UInt8) :
    (canonical l).length ≤ l.length ∧ (l ≠ [] → canonical l ≠ []) := by
  induction l using canonical.induct with
  | case1 a b rest h ih =>
      rw [canonical, if_pos h]
      refine ⟨?_, fun _ => ih.2 (List.cons_ne_nil _ _)⟩
      have := ih.1
      rw [List.length_cons]
      omega
  | case2 a b rest h =>
      rw [canonical, if_neg h]
      exact ⟨Nat.le_refl _, id⟩
  | case3 l hl =>
      rw [canonical.eq_2 l hl]
      exact ⟨Nat.le_refl _, id⟩

/-- An integer has one to eight contents octets. -/
theorem integerOctets_length (v : ℤ) :
    1 ≤ (integerOctets v).length ∧ (integerOctets v).length ≤ 8 := by
  have h8 : (octets64 v).length = 8 := by
    unfold octets64
    rw [List.length_map, List.length_reverse, List.length_range]
  obtain ⟨hle, hne⟩ := canonical_length (octets64 v)
  rw [h8] at hle
  have hnil : octets64 v ≠ [] := by
    intro h
    rw [h] at h8
    cases h8
  exact ⟨List.length_pos_of_ne_nil (hne hnil), hle⟩

theorem length_integer (tag : UInt8) (v : ℤ) :
    (integer tag v).length = 2 + (integerOctets v).length :=
  length_tlv_short ((integerOctets_length v).2.trans (by decide))

example : integer 0x02 1023 = [0x02, 0x02, 0x03, 0xff] := by decide +kernel

end Der
