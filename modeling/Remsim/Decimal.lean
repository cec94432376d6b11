import Mathlib

/-! # Decimal numerals, `strtoul()`, `strtol()` and `atoi()`

Strings are lists of octets.  `numeral` writes a number with decimal digits and without leading
zeros.  `strtoul` is the conversion of the C library to base 10 with a 64-bit `unsigned long`: it
skips white space, takes a sign, and stops at the first octet that is no digit, and it does not
tell whether there was a digit at all.  `strtol` is the conversion with a 64-bit `long`, and tells
where it stopped; `atoi` is the `int` that remains of it.
-/

namespace Decimal

/-- White space. -/
def isSpace (c : UInt8) : Bool := c = 32 || (9 ≤ c && c ≤ 13)

/-- The digits 0 to 9. -/
def isDigit (c : UInt8) : Bool := 48 ≤ c && c ≤ 57

/-- The digit for a number below ten. -/
def digit (d : ℕ) : UInt8 := .ofNat (48 + d)

/-- The number that a string of digits stands for. -/
def value (ds : List UInt8) : ℕ := ds.foldl (fun n c => 10 * n + (c.toNat - 48)) 0

/-- The decimal numeral of a number. -/
def numeral (n : ℕ) : List UInt8 :=
  if n = 0 then [digit 0] else (Nat.digits 10 n).reverse.map digit

/-- Whether a string starts with a minus sign, and what follows the sign, if there is one. -/
def sign : List UInt8 → Bool × List UInt8
  | 45 :: cs => (true, cs)
  | 43 :: cs => (false, cs)
  | cs => (false, cs)

/-- `ULONG_MAX`. -/
def ulongMax : ℕ := 2 ^ 64 - 1

/-- `strtoul()`: the number, and whether `errno` has been set to `ERANGE`. -/
def strtoul (s : List UInt8) : ℕ × Bool :=
  let r := sign (s.dropWhile isSpace)
  let n := value (r.2.takeWhile isDigit)
  if n > ulongMax then (ulongMax, true)
  else (if r.1 then (2 ^ 64 - n) % 2 ^ 64 else n, false)

/-- `strtol()`: the number, between `LONG_MIN` and `LONG_MAX`, and what `endptr` points at. -/
def strtol (s : List UInt8) : ℤ × List UInt8 :=
  let r := sign (s.dropWhile isSpace)
  let ds := r.2.takeWhile isDigit
  if ds = [] then (0, s)
  else
    let n : ℤ := if r.1 then -value ds else value ds
    (max (-2 ^ 63) (min n (2 ^ 63 - 1)), r.2.dropWhile isDigit)

/-- `atoi()`: the lower 32 bits of what `strtol()` converts, as an `int`. -/
def atoi (s : List UInt8) : ℤ := (strtol s).1.bmod (2 ^ 32)

/-- A string that consists of digits, and of one digit at least. -/
def IsNumber (s : List UInt8) : Prop := s ≠ [] ∧ ∀ c ∈ s, isDigit c = true

instance (s : List UInt8) : Decidable (IsNumber s) := inferInstanceAs (Decidable (_ ∧ _))

theorem toNat_digit {d : ℕ} (h : d < 10) : (digit d).toNat = 48 + d := by
  rw [digit, UInt8.toNat_ofNat']
  omega

theorem isDigit_iff {c : UInt8} : isDigit c = true ↔ 48 ≤ c.toNat ∧ c.toNat ≤ 57 := by
  rw [isDigit, Bool.and_eq_true, decide_eq_true_eq, decide_eq_true_eq, UInt8.le_iff_toNat_le,
    UInt8.le_iff_toNat_le]
  exact Iff.rfl

theorem isDigit_digit {d : ℕ} (h : d < 10) : isDigit (digit d) = true := by
  rw [isDigit_iff, toNat_digit h]
  omega

theorem isSpace_of_isDigit {c : UInt8} (h : isDigit c = true) : isSpace c = false := by
  rw [isDigit_iff] at h
  have h₁ : c ≠ 32 := by
    rintro rfl
    exact absurd h.1 (by decide)
  have h₂ : ¬c ≤ 13 := by
    rw [UInt8.le_iff_toNat_le]
    have : (13 : UInt8).toNat = 13 := rfl
    omega
  rw [isSpace, decide_eq_false h₁, decide_eq_false h₂, Bool.and_false, Bool.or_false]

theorem sign_of_ne {c : UInt8} (h₁ : c ≠ 45) (h₂ : c ≠ 43) (cs : List UInt8) :
    sign (c :: cs) = (false, c :: cs) := by
  unfold sign
  split
  · next heq => exact absurd (List.cons.inj heq).1 h₁
  · next heq => exact absurd (List.cons.inj heq).1 h₂
  · rfl

theorem sign_suffix (s : List UInt8) : (sign s).2 <:+ s := by
  unfold sign
  split
  · exact List.suffix_cons _ _
  · exact List.suffix_cons _ _
  · exact List.suffix_rfl

theorem sign_of_isDigit {c : UInt8} (h : isDigit c = true) (cs : List UInt8) :
    sign (c :: cs) = (false, c :: cs) :=
  sign_of_ne (fun heq => absurd (heq ▸ h) (by decide)) (fun heq => absurd (heq ▸ h) (by decide)) cs

/-- The digits of a number, least significant first, stand for it when written in reverse. -/
theorem value_reverse (ds : List ℕ) (h : ∀ d ∈ ds, d < 10) :
    value (ds.reverse.map digit) = Nat.ofDigits 10 ds := by
  induction ds with
  | nil => rfl
  | cons d ds ih =>
      have ih := ih fun e he => h e (List.mem_cons_of_mem d he)
      have hd := toNat_digit (h d List.mem_cons_self)
      unfold value at ih ⊢
      rw [List.reverse_cons, List.map_append, List.foldl_append, ih, Nat.ofDigits_cons]
      simp only [List.map_cons, List.map_nil, List.foldl_cons, List.foldl_nil, hd]
      omega

theorem value_numeral (n : ℕ) : value (numeral n) = n := by
  unfold numeral
  split_ifs with h
  · rw [h]
    rfl
  · rw [value_reverse _ fun d hd => Nat.digits_lt_base (by decide) hd, Nat.ofDigits_digits]

theorem isDigit_numeral (n : ℕ) : ∀ c ∈ numeral n, isDigit c = true := by
  intro c hc
  unfold numeral at hc
  split_ifs at hc
  · rw [List.mem_singleton.mp hc]
    exact isDigit_digit (by decide)
  · obtain ⟨d, hd, rfl⟩ := List.mem_map.mp hc
    exact isDigit_digit (Nat.digits_lt_base (by decide) (List.mem_reverse.mp hd))

theorem numeral_ne_nil (n : ℕ) : numeral n ≠ [] := by
  unfold numeral
  split_ifs with h
  · exact List.cons_ne_nil _ _
  · rw [Ne, List.map_eq_nil_iff, List.reverse_eq_nil_iff]
    exact Nat.digits_ne_nil_iff_ne_zero.mpr h

/-- **The numeral of a number that fits is converted to the number.** -/
theorem strtoul_numeral {n : ℕ} (h : n ≤ ulongMax) : strtoul (numeral n) = (n, false) := by
  have hall := isDigit_numeral n
  have hval := value_numeral n
  cases hn : numeral n with
  | nil => exact absurd hn (numeral_ne_nil n)
  | cons c cs =>
      rw [hn] at hall hval
      have hc := hall c List.mem_cons_self
      have hdrop : (c :: cs).dropWhile isSpace = c :: cs :=
        List.dropWhile_cons_of_neg (by rw [isSpace_of_isDigit hc]; decide)
      have htake : (c :: cs).takeWhile isDigit = c :: cs := List.takeWhile_eq_self_iff.mpr hall
      unfold strtoul
      simp only [hdrop, sign_of_isDigit hc, htake, hval]
      rw [if_neg (by omega)]
      rfl

theorem strtol_of_isNumber {s : List UInt8} (h : IsNumber s) :
    strtol s = (min (value s : ℤ) (2 ^ 63 - 1), []) := by
  obtain ⟨hne, hall⟩ := h
  cases s with
  | nil => exact absurd rfl hne
  | cons c cs =>
      have hc := hall c List.mem_cons_self
      have hskip : (c :: cs).dropWhile isSpace = c :: cs :=
        List.dropWhile_cons_of_neg (by rw [isSpace_of_isDigit hc]; decide)
      have htake : (c :: cs).takeWhile isDigit = c :: cs := List.takeWhile_eq_self_iff.mpr hall
      have hdrop : (c :: cs).dropWhile isDigit = [] := List.dropWhile_eq_nil_iff.mpr hall
      unfold strtol
      simp only [hskip, sign_of_isDigit hc, htake, hdrop]
      rw [if_neg hne, if_neg (by decide), max_eq_right]
      omega

theorem atoi_of_isNumber {s : List UInt8} (h : IsNumber s) (hlt : value s < 2 ^ 31) :
    atoi s = value s := by
  rw [atoi, strtol_of_isNumber h, min_eq_left (by omega)]
  exact Int.bmod_eq_of_le (by omega) (by omega)

theorem atoi_lt (s : List UInt8) : atoi s < 2 ^ 31 :=
  lt_of_lt_of_eq (Int.bmod_lt (by omega)) (by norm_num)

/-- `atoi()` converts a string of digits exactly when its number is an `int`. -/
theorem atoi_eq_value_iff {s : List UInt8} (h : IsNumber s) :
    atoi s = value s ↔ value s < 2 ^ 31 := by
  constructor
  · intro heq
    have := atoi_lt s
    omega
  · exact atoi_of_isNumber h

end Decimal
