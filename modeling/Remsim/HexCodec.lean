import Remsim.Errno
import Remsim.Scanf

/-! # The hexadecimal codec of the OpenWRT client (`user_openwrt.c`)

APDUs travel to and from the modem as strings of hexadecimal digits.  `hex_str_to_bin()` leaves
each pair of digits to a call of `sscanf()` of its own, at the place of the pair but with the rest
of the string after it, so a pair may be made of white space, a sign or a character that is no digit
behind the first one.  Allocations are taken to succeed.

* `codec_iff`: what is written is read back, and a string is refused exactly as it should be unless
  it is one that only `sscanf()` takes for digits. -/

namespace Remsim
namespace OpenWrt

open Scanf

/-- `bin_to_hex_str()`. -/
def binToHexStr (data : List UInt8) : Option (List UInt8) :=
  if data.length > 512 then none else some (Hex.encode data)

/-- The loop of `hex_str_to_bin()` over `k` pairs: the octets stored, and whether all are. -/
def hexPairs : ℕ → List UInt8 → List UInt8 × Bool
  | 0, _ => ([], true)
  | k + 1, s =>
      match sscanf [.hex 2] s with
      | [.octet c] => (c :: (hexPairs k (s.drop 2)).1, (hexPairs k (s.drop 2)).2)
      | _ => ([], false)

/-- `hex_str_to_bin()`: the result and what is stored in the buffer. -/
def hexStrToBin (s : List UInt8) (bufLen : ℕ) : ℤ × List UInt8 :=
  if s.length % 2 ≠ 0 then (-einval, [])
  else if s.length / 2 > bufLen then (-enospc, [])
  else
    let r := hexPairs (s.length / 2) s
    if r.2 then (((s.length / 2 : ℕ) : ℤ), r.1) else (-einval, r.1)

/-! ### The pairs -/

variable {s : List UInt8} {k : ℕ}

theorem sscanf_hex (s : List UInt8) :
    sscanf [.hex 2] s = ((scanHex 2 s).map fun x => Val.octet x.1).toList := by
  cases h : scanHex 2 s <;> simp [sscanf, Directive.scan, h]

/-- All pairs are read exactly if one can start at each of them. -/
theorem hexPairs_snd (k : ℕ) (s : List UInt8) :
    (hexPairs k s).2 = true ↔ ∀ i < k, HexStart (s.drop (2 * i)) := by
  induction k generalizing s with
  | zero => simp [hexPairs]
  | succ k ih =>
      have hsplit : (∀ i < k + 1, HexStart (s.drop (2 * i))) ↔
          HexStart s ∧ ∀ i < k, HexStart ((s.drop 2).drop (2 * i)) := by
        constructor
        · refine fun h => ⟨h 0 (Nat.succ_pos k), fun i hi => ?_⟩
          have := h (i + 1) (by omega)
          rwa [List.drop_drop, Nat.add_comm 2 (2 * i)]
        · rintro ⟨h₀, h⟩ i hi
          cases i with
          | zero => exact h₀
          | succ i =>
              have := h i (by omega)
              rwa [List.drop_drop, Nat.add_comm 2 (2 * i)] at this
      rw [hsplit, ← scanHex_isSome, ← ih, hexPairs, sscanf_hex]
      cases scanHex 2 s <;> simp

theorem hexPairs_digits (h : ∀ c ∈ s, Hex.isDigit c = true) (hs : s.length = 2 * k) :
    hexPairs k s = (Hex.decode s, true) := by
  induction k generalizing s with
  | zero =>
      obtain rfl := List.length_eq_zero_iff.mp hs
      rfl
  | succ k ih =>
      rcases s with _ | ⟨a, _ | ⟨b, t⟩⟩
      · cases hs
      · rw [List.length_singleton] at hs
        omega
      · rw [List.length_cons, List.length_cons] at hs
        obtain ⟨ha, hb, h⟩ := List.forall_mem_cons.mp h |>.imp_right List.forall_mem_cons.mp
        rw [hexPairs, sscanf_hex, scanHex_pair ha hb]
        simp [ih h (by omega), Hex.decode]

/-! ### The codec -/

/-- What is written is read back, if it fits. -/
def RoundTrips (x : List UInt8) (bufLen : ℕ) : Prop :=
  x.length ≤ 512 → x.length ≤ bufLen →
    ∃ h, binToHexStr x = some h ∧ hexStrToBin h bufLen = ((x.length : ℤ), x)

/-- Pairs of digits that fit are read as the octets they denote, and nothing else is read. -/
def Decodes (s : List UInt8) (bufLen : ℕ) : Prop :=
  if s.length % 2 = 0 ∧ s.length / 2 ≤ bufLen ∧ ∀ c ∈ s, Hex.isDigit c = true then
    hexStrToBin s bufLen = (((s.length / 2 : ℕ) : ℤ), Hex.decode s)
  else (hexStrToBin s bufLen).1 < 0

/-- The string fits and is not made of digits, but something that begins like a number stands at
the place of each pair. -/
def Lax (s : List UInt8) (bufLen : ℕ) : Prop :=
  s.length % 2 = 0 ∧ s.length / 2 ≤ bufLen ∧ (∃ c ∈ s, Hex.isDigit c = false) ∧
    ∀ i < s.length / 2, HexStart (s.drop (2 * i))

variable {x : List UInt8} {bufLen : ℕ}

theorem hexStrToBin_digits (h : ∀ c ∈ s, Hex.isDigit c = true) (heven : s.length % 2 = 0)
    (hfits : s.length / 2 ≤ bufLen) :
    hexStrToBin s bufLen = (((s.length / 2 : ℕ) : ℤ), Hex.decode s) := by
  have hpairs := hexPairs_digits (k := s.length / 2) h (by omega)
  rw [hexStrToBin, if_neg (not_not.mpr heven), if_neg (by omega), hpairs]
  rfl

theorem roundTrips (x : List UInt8) (bufLen : ℕ) : RoundTrips x bufLen := by
  intro hx hfits
  have hlen := Hex.length_encode x
  refine ⟨Hex.encode x, if_neg (by omega), ?_⟩
  rw [hexStrToBin_digits (Hex.isDigit_encode x) (by omega) (by omega), hlen, Hex.decode_encode,
    Nat.mul_div_cancel_left _ (by decide)]

/-- A string is accepted if it has pairs that fit and something is read of each. -/
theorem hexStrToBin_nonneg :
    0 ≤ (hexStrToBin s bufLen).1 ↔ s.length % 2 = 0 ∧ s.length / 2 ≤ bufLen ∧
      ∀ i < s.length / 2, HexStart (s.drop (2 * i)) := by
  rw [← hexPairs_snd]
  unfold hexStrToBin einval enospc
  split_ifs with h₁ h₂
  · exact iff_of_false (by decide) fun h => h₁ h.1
  · exact iff_of_false (by decide) fun h => absurd h.2.1 (by omega)
  · cases h₃ : (hexPairs (s.length / 2) s).2
    · exact iff_of_false (by simp [h₃]) fun h => Bool.false_ne_true h.2.2
    · refine iff_of_true ?_ ⟨by omega, by omega, rfl⟩
      simp only [h₃, if_true]
      exact Int.natCast_nonneg _

theorem hexStrToBin_fst (h : 0 ≤ (hexStrToBin s bufLen).1) :
    (hexStrToBin s bufLen).1 = ((s.length / 2 : ℕ) : ℤ) := by
  have hacc := hexStrToBin_nonneg.mp h
  have hpairs := (hexPairs_snd _ _).mpr hacc.2.2
  rw [hexStrToBin, if_neg (not_not.mpr hacc.1), if_neg (by omega)]
  simp only [hpairs, if_true]

theorem decodes_iff : Decodes s bufLen ↔ ¬Lax s bufLen := by
  unfold Decodes Lax
  split_ifs with h
  · refine iff_of_true (hexStrToBin_digits h.2.2 h.1 h.2.1) ?_
    rintro ⟨-, -, ⟨c, hc, hd⟩, -⟩
    rw [h.2.2 c hc] at hd
    cases hd
  · rw [← not_le, hexStrToBin_nonneg, not_iff_not]
    refine ⟨fun ⟨h₁, h₂, h₃⟩ => ⟨h₁, h₂, ?_, h₃⟩, fun ⟨h₁, h₂, _, h₃⟩ => ⟨h₁, h₂, h₃⟩⟩
    by_contra hno
    refine h ⟨h₁, h₂, fun c hc => ?_⟩
    rw [← Bool.not_eq_false]
    exact fun hd => hno ⟨c, hc, hd⟩

/-- **The codec is exact on all strings but those that only begin like a number at each pair.** -/
theorem codec_iff (x s : List UInt8) (bufLen : ℕ) :
    RoundTrips x bufLen ∧ Decodes s bufLen ↔ ¬Lax s bufLen :=
  ⟨fun h => decodes_iff.mp h.2, fun h => ⟨roundTrips x bufLen, decodes_iff.mpr h⟩⟩

/-- A blank and a digit are read as one octet. -/
theorem blank_accepted :
    ¬Decodes (CString.ascii " 4") 1 ∧ hexStrToBin (CString.ascii " 4") 1 = (1, [4]) := by
  have h : hexStrToBin (CString.ascii " 4") 1 = (1, [4]) := by decide
  refine ⟨fun hdec => ?_, h⟩
  rw [Decodes, if_neg (by decide), h] at hdec
  exact absurd hdec (by decide)

end OpenWrt
end Remsim
