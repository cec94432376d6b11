import Mathlib

/-! # Hexadecimal digits

Octets are written with two digits each.  `encode` writes upper case digits, `decode` reads both
cases; a string is well-formed for it if it consists of an even number of digits. -/

namespace Hex

/-- The value of a digit. -/
def digitVal (c : UInt8) : Option ℕ :=
  if 48 ≤ c ∧ c ≤ 57 then some (c.toNat - 48)
  else if 65 ≤ c ∧ c ≤ 70 then some (c.toNat - 55)
  else if 97 ≤ c ∧ c ≤ 102 then some (c.toNat - 87)
  else none

/-- The digits 0 to 9, A to F and a to f. -/
def isDigit (c : UInt8) : Bool := (digitVal c).isSome

/-- The upper case digit for a number below sixteen. -/
def digit (d : ℕ) : UInt8 := if d < 10 then .ofNat (48 + d) else .ofNat (55 + d)

/-- The number that a string of digits stands for. -/
def value (ds : List UInt8) : ℕ := ds.foldl (fun n c => 16 * n + (digitVal c).getD 0) 0

/-- The digits of octets. -/
def encode (x : List UInt8) : List UInt8 :=
  x.flatMap fun b => [digit (b.toNat / 16), digit (b.toNat % 16)]

/-- The octets that pairs of digits stand for. -/
def decode : List UInt8 → List UInt8
  | a :: b :: s => .ofNat (value [a, b]) :: decode s
  | _ => []

theorem digitVal_digit : ∀ d < 16, digitVal (digit d) = some d := by decide

theorem isDigit_digit {d : ℕ} (h : d < 16) : isDigit (digit d) = true := by
  rw [isDigit, digitVal_digit d h, Option.isSome_some]

theorem value_pair {a b : UInt8} {d e : ℕ} (ha : digitVal a = some d) (hb : digitVal b = some e) :
    value [a, b] = 16 * d + e := by
  simp only [value, List.foldl_cons, List.foldl_nil, ha, hb, Option.getD_some, Nat.mul_zero,
    Nat.zero_add]

theorem length_encode (x : List UInt8) : (encode x).length = 2 * x.length := by
  induction x with
  | nil => rfl
  | cons b x ih =>
      have : encode (b :: x) = digit (b.toNat / 16) :: digit (b.toNat % 16) :: encode x := rfl
      rw [this, List.length_cons, List.length_cons, List.length_cons, ih]
      omega

theorem isDigit_encode (x : List UInt8) : ∀ c ∈ encode x, isDigit c = true := by
  intro c hc
  obtain ⟨b, _, hc⟩ := List.mem_flatMap.mp hc
  have hb := b.toNat_lt
  rcases List.mem_cons.mp hc with rfl | hc
  · exact isDigit_digit (by omega)
  · rw [List.mem_singleton.mp hc]
    exact isDigit_digit (Nat.mod_lt _ (by decide))

/-- **What is written is read back.** -/
theorem decode_encode (x : List UInt8) : decode (encode x) = x := by
  induction x with
  | nil => rfl
  | cons b x ih =>
      have hb := b.toNat_lt
      have hval := value_pair (digitVal_digit (b.toNat / 16) (by omega))
        (digitVal_digit (b.toNat % 16) (Nat.mod_lt _ (by decide)))
      have : encode (b :: x) = digit (b.toNat / 16) :: digit (b.toNat % 16) :: encode x := rfl
      rw [this, decode, ih, hval, Nat.div_add_mod, UInt8.ofNat_toNat]

end Hex
