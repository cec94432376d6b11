import Remsim.CString
import Remsim.Hex

/-! # Formatted input (`sscanf()`)

A format is a list of directives, which are carried out one after the other on what is left of the
string; the first one that fails ends the call.  `sscanf` is the list of the values that have been
assigned by then, so its length is what the C function returns (where that is not negative).

The conversions follow ISO C.  Numbers and words skip white space in front of them, `%[` does not.
An input item is the longest prefix, within the field width, of something that the conversion
accepts, and the conversion fails if the item is not accepted itself; so `%2x` fails on `0x`.  A
number too large for its type is left as it is. -/

namespace Scanf

open Decimal

/-- The directives of a format. -/
inductive Directive where
  /-- White space in the format. -/
  | space
  /-- Another character. -/
  | lit (c : UInt8)
  /-- `%d`. -/
  | dec
  /-- `%hhx` with a field width. -/
  | hex (w : ℕ)
  /-- `%s` with a field width. -/
  | word (w : ℕ)
  /-- `%[^c]` with a field width. -/
  | span (w : ℕ) (stop : UInt8)
deriving DecidableEq, Repr

/-- The values that are assigned. -/
inductive Val where
  | int (n : ℤ)
  | octet (c : UInt8)
  | text (s : List UInt8)
deriving DecidableEq, Repr

/-- The conversion `%d`. -/
def scanDec (s : List UInt8) : Option (ℤ × List UInt8) :=
  let r := sign (s.dropWhile isSpace)
  let ds := r.2.takeWhile isDigit
  if ds = [] then none
  else some (if r.1 then -(value ds : ℤ) else value ds, r.2.drop ds.length)

/-- A prefix `0x`, within a field width. -/
def hexPrefix (w : ℕ) : List UInt8 → Bool
  | 48 :: c :: _ => decide (2 ≤ w) && (decide (c = 120) || decide (c = 88))
  | _ => false

/-- The digits of a hexadecimal number after its sign. -/
def scanHexDigits (w : ℕ) (s : List UInt8) : Option (ℕ × List UInt8) :=
  let k := if hexPrefix w s then 2 else 0
  let ds := ((s.drop k).take (w - k)).takeWhile Hex.isDigit
  if ds = [] then none else some (Hex.value ds, s.drop (k + ds.length))

/-- The conversion `%hhx`. -/
def scanHex (w : ℕ) (s : List UInt8) : Option (UInt8 × List UInt8) :=
  let s := s.dropWhile isSpace
  let r := sign s
  let w := if r.2.length < s.length then w - 1 else w
  (scanHexDigits w r.2).map fun x => (.ofInt (if r.1 then -(x.1 : ℤ) else x.1), x.2)

/-- A directive: the values it assigns, and the rest of the string. -/
def Directive.scan : Directive → List UInt8 → Option (List Val × List UInt8)
  | .space, s => some ([], s.dropWhile isSpace)
  | .lit c, s => if s.head? = some c then some ([], s.tail) else none
  | .dec, s => (scanDec s).map fun x => ([.int x.1], x.2)
  | .hex w, s => (scanHex w s).map fun x => ([.octet x.1], x.2)
  | .word w, s =>
      let t := s.dropWhile isSpace
      let u := (t.takeWhile fun c => !isSpace c).take w
      if u = [] then none else some ([.text u], t.drop u.length)
  | .span w stop, s =>
      let u := (s.takeWhile fun c => c ≠ stop).take w
      if u = [] then none else some ([.text u], s.drop u.length)

/-- `sscanf()`: the values that it assigns. -/
def sscanf : List Directive → List UInt8 → List Val
  | [], _ => []
  | d :: ds, s =>
      match d.scan s with
      | none => []
      | some (vs, s) => vs ++ sscanf ds s

/-- The directives for a text in a format. -/
def lits (p : List UInt8) : List Directive := p.map .lit

/-! ### One directive -/

theorem sscanf_space (ds : List Directive) (s : List UInt8) :
    sscanf (.space :: ds) s = sscanf ds (s.dropWhile isSpace) := rfl

theorem sscanf_lit (c : UInt8) (ds : List Directive) (s : List UInt8) :
    sscanf (.lit c :: ds) (c :: s) = sscanf ds s := by
  have hc : (Directive.lit c).scan (c :: s) = some ([], s) := if_pos rfl
  rw [sscanf, hc]
  rfl

theorem sscanf_lit_of_ne {c : UInt8} {s : List UInt8} (h : s.head? ≠ some c)
    (ds : List Directive) : sscanf (.lit c :: ds) s = [] := by
  have hc : (Directive.lit c).scan s = none := if_neg h
  rw [sscanf, hc]

theorem sscanf_dec {s r : List UInt8} {n : ℤ} (h : scanDec s = some (n, r)) (ds : List Directive) :
    sscanf (.dec :: ds) s = .int n :: sscanf ds r := by
  have hc : Directive.dec.scan s = some ([.int n], r) := by rw [Directive.scan, h, Option.map_some]
  rw [sscanf, hc]
  rfl

theorem sscanf_dec_none {s : List UInt8} (h : scanDec s = none) (ds : List Directive) :
    sscanf (.dec :: ds) s = [] := by
  have hc : Directive.dec.scan s = none := by rw [Directive.scan, h, Option.map_none]
  rw [sscanf, hc]

/-- What `%[^c]` takes from a string. -/
def spanned (w : ℕ) (stop : UInt8) (s : List UInt8) : List UInt8 :=
  (s.takeWhile fun c => c ≠ stop).take w

theorem sscanf_span {w : ℕ} {stop : UInt8} {s : List UInt8} (h : spanned w stop s ≠ [])
    (ds : List Directive) : sscanf (.span w stop :: ds) s =
      .text (spanned w stop s) :: sscanf ds (s.drop (spanned w stop s).length) := by
  have hc : (Directive.span w stop).scan s = some ([.text (spanned w stop s)],
    s.drop (spanned w stop s).length) := if_neg h
  rw [sscanf, hc]
  rfl

theorem sscanf_span_nil {w : ℕ} {stop : UInt8} {s : List UInt8} (h : spanned w stop s = [])
    (ds : List Directive) : sscanf (.span w stop :: ds) s = [] := by
  have hc : (Directive.span w stop).scan s = none := if_pos h
  rw [sscanf, hc]

/-- The word that `%s` finds in a string, and what follows it. -/
def wordOf (s : List UInt8) : List UInt8 × List UInt8 :=
  let t := s.dropWhile isSpace
  (t.takeWhile fun c => !isSpace c, t.dropWhile fun c => !isSpace c)

theorem wordOf_eq_nil_iff (s : List UInt8) : (wordOf s).1 = [] ↔ s.dropWhile isSpace = [] := by
  unfold wordOf
  cases hd : s.dropWhile isSpace with
  | nil => simp
  | cons c t =>
      have hc : isSpace c = false := by
        have hhead := List.head?_dropWhile_not isSpace s
        rw [hd] at hhead
        exact hhead
      simp [hc]

theorem wordOf_dropWhile (r : List UInt8) : wordOf (r.dropWhile isSpace) = wordOf r := by
  unfold wordOf
  rw [List.dropWhile_idempotent]

theorem sscanf_word {w : ℕ} {s : List UInt8} (h : (wordOf s).1.take w ≠ [])
    (ds : List Directive) : sscanf (.word w :: ds) s = .text ((wordOf s).1.take w) ::
      sscanf ds ((s.dropWhile isSpace).drop ((wordOf s).1.take w).length) := by
  have hc : (Directive.word w).scan s = some ([.text ((wordOf s).1.take w)],
    (s.dropWhile isSpace).drop ((wordOf s).1.take w).length) := if_neg h
  rw [sscanf, hc]
  rfl

theorem sscanf_word_nil {w : ℕ} {s : List UInt8} (h : (wordOf s).1.take w = [])
    (ds : List Directive) : sscanf (.word w :: ds) s = [] := by
  have hc : (Directive.word w).scan s = none := if_pos h
  rw [sscanf, hc]

theorem drop_wordOf (s : List UInt8) :
    (s.dropWhile isSpace).drop (wordOf s).1.length = (wordOf s).2 := by
  have happend : (wordOf s).1 ++ (wordOf s).2 = s.dropWhile isSpace :=
    List.takeWhile_append_dropWhile
  rw [← happend, List.drop_left]

/-- A text in a format has to stand in the string. -/
theorem sscanf_lits (p : List UInt8) (ds : List Directive) (s : List UInt8) :
    sscanf (lits p ++ ds) (p ++ s) = sscanf ds s := by
  induction p with
  | nil => rfl
  | cons c p ih =>
      rw [lits, List.map_cons, List.cons_append, List.cons_append, sscanf_lit]
      exact ih

/-! ### Decimal numbers -/

theorem scanDec_dropWhile (s : List UInt8) : scanDec (s.dropWhile isSpace) = scanDec s := by
  rw [scanDec, scanDec, List.dropWhile_idempotent]

theorem scanDec_suffix {s r : List UInt8} {n : ℤ} (h : scanDec s = some (n, r)) : r <:+ s := by
  simp only [scanDec, Option.ite_none_left_eq_some, Option.some.injEq, Prod.mk.injEq] at h
  obtain ⟨-, -, rfl⟩ := h
  exact (List.drop_suffix _ _).trans ((sign_suffix _).trans (List.dropWhile_suffix _))

theorem scanDec_numeral (n : ℕ) {c : UInt8} (hc : isDigit c = false) (s : List UInt8) :
    scanDec (numeral n ++ c :: s) = some ((n : ℤ), c :: s) := by
  have hall := isDigit_numeral n
  have hval := value_numeral n
  have htake : (numeral n ++ c :: s).takeWhile isDigit = numeral n := by
    rw [List.takeWhile_append_of_pos hall, List.takeWhile_cons_of_neg (by rw [hc]; decide),
      List.append_nil]
  have hfirst : ∃ d ds, numeral n = d :: ds := List.exists_cons_of_ne_nil (numeral_ne_nil n)
  obtain ⟨d, ds, hds⟩ := hfirst
  have hd : isDigit d = true := hall d (by rw [hds]; exact List.mem_cons_self)
  have hdrop : (numeral n ++ c :: s).dropWhile isSpace = numeral n ++ c :: s := by
    rw [hds, List.cons_append, List.dropWhile_cons_of_neg (by rw [isSpace_of_isDigit hd]; decide)]
  have hsign : sign (numeral n ++ c :: s) = (false, numeral n ++ c :: s) := by
    rw [hds, List.cons_append, sign_of_isDigit hd]
  simp only [scanDec, hdrop, hsign, htake, hval, if_neg (numeral_ne_nil n), List.drop_left]
  rfl

theorem scanDec_minus (n : ℕ) {c : UInt8} (hc : isDigit c = false) (s : List UInt8) :
    scanDec (45 :: (numeral n ++ c :: s)) = some (-(n : ℤ), c :: s) := by
  have htake : (numeral n ++ c :: s).takeWhile isDigit = numeral n := by
    rw [List.takeWhile_append_of_pos (isDigit_numeral n),
      List.takeWhile_cons_of_neg (by rw [hc]; decide), List.append_nil]
  have hdrop : (45 :: (numeral n ++ c :: s)).dropWhile isSpace = 45 :: (numeral n ++ c :: s) :=
    List.dropWhile_cons_of_neg (by decide)
  simp only [scanDec, hdrop, sign, htake, value_numeral, if_neg (numeral_ne_nil n),
    List.drop_left]
  rfl

/-! ### Two hexadecimal digits -/

/-- Hexadecimal digits are neither white space nor signs, and not part of a prefix. -/
theorem not_special_of_isDigit {c : UInt8} (h : Hex.isDigit c = true) :
    isSpace c = false ∧ c ≠ 45 ∧ c ≠ 43 ∧ c ≠ 120 ∧ c ≠ 88 := by
  have hne : ∀ d, Hex.isDigit d = false → c ≠ d := by
    rintro d hd rfl
    rw [h] at hd
    cases hd
  refine ⟨?_, hne 45 rfl, hne 43 rfl, hne 120 rfl, hne 88 rfl⟩
  rw [isSpace, decide_eq_false (hne 32 rfl), Bool.false_or, Bool.and_eq_false_iff,
    decide_eq_false_iff_not, decide_eq_false_iff_not, ← not_and_or]
  rintro ⟨h₁, h₂⟩
  have h48 : ¬48 ≤ c := by
    rw [UInt8.le_iff_toNat_le] at h₂ ⊢
    have : (13 : UInt8).toNat = 13 := rfl
    have : (48 : UInt8).toNat = 48 := rfl
    omega
  have h65 : ¬65 ≤ c := fun hle => h48 (UInt8.le_trans (by decide) hle)
  have h97 : ¬97 ≤ c := fun hle => h48 (UInt8.le_trans (by decide) hle)
  simp [Hex.isDigit, Hex.digitVal, h48, h65, h97] at h

theorem ofInt_natCast (n : ℕ) : UInt8.ofInt (n : ℤ) = UInt8.ofNat n := by
  rw [UInt8.ofInt, ← UInt8.toNat_inj, UInt8.toNat_ofNat', UInt8.toNat_ofNat']
  omega

theorem scanHex_pair {a b : UInt8} (ha : Hex.isDigit a = true) (hb : Hex.isDigit b = true)
    (t : List UInt8) : scanHex 2 (a :: b :: t) = some (.ofNat (Hex.value [a, b]), t) := by
  obtain ⟨hsp, h45, h43, -⟩ := not_special_of_isDigit ha
  obtain ⟨-, -, -, h120, h88⟩ := not_special_of_isDigit hb
  have hpre : hexPrefix 2 (a :: b :: t) = false := by
    unfold hexPrefix
    split
    · next heq =>
        obtain ⟨-, rfl, -⟩ := heq
        simp [h120, h88]
    · rfl
  have hdigits : scanHexDigits 2 (a :: b :: t) = some (Hex.value [a, b], t) := by
    simp [scanHexDigits, hpre, ha, hb]
  have hdrop : (a :: b :: t).dropWhile isSpace = a :: b :: t :=
    List.dropWhile_cons_of_neg (by rw [hsp]; decide)
  simp only [scanHex, hdrop, sign_of_ne h45 h43, lt_irrefl, if_false, hdigits, Option.map_some,
    Bool.false_eq_true, ofInt_natCast]

/-- What `%2hhx` needs in order to read something: after white space a hexadecimal digit that does
not begin a prefix `0x`, or a sign and a hexadecimal digit. -/
def HexStart (s : List UInt8) : Prop :=
  match s.dropWhile isSpace with
  | [] => False
  | c :: t =>
      (Hex.isDigit c = true ∧ hexPrefix 2 (c :: t) = false) ∨
        ((c = 43 ∨ c = 45) ∧ ∃ d ∈ t.head?, Hex.isDigit d = true)

/-- The digits of a number are read if there is one after the prefix. -/
theorem scanHexDigits_isSome {w : ℕ} {s : List UInt8} :
    (scanHexDigits w s).isSome = true ↔
      0 < w ∧ hexPrefix w s = false ∧ (∃ d ∈ s.head?, Hex.isDigit d = true) ∨
        2 < w ∧ hexPrefix w s = true ∧ (∃ d ∈ (s.drop 2).head?, Hex.isDigit d = true) := by
  have hfirst : ∀ (n : ℕ) (l : List UInt8), (l.take n).takeWhile Hex.isDigit ≠ [] ↔
      0 < n ∧ ∃ d ∈ l.head?, Hex.isDigit d = true := by
    intro n l
    cases n with
    | zero => simp
    | succ n =>
        cases l with
        | nil => simp
        | cons d l => by_cases hd : Hex.isDigit d = true <;> simp [hd]
  have hiff : (scanHexDigits w s).isSome = true ↔
      ((s.drop (if hexPrefix w s then 2 else 0)).take
        (w - if hexPrefix w s then 2 else 0)).takeWhile Hex.isDigit ≠ [] := by
    by_cases h : ((s.drop (if hexPrefix w s then 2 else 0)).take
        (w - if hexPrefix w s then 2 else 0)).takeWhile Hex.isDigit = []
    · exact iff_of_false (by simp only [scanHexDigits, if_pos h, Option.isSome_none,
        Bool.false_eq_true, not_false_eq_true]) (not_not.mpr h)
    · exact iff_of_true (by simp only [scanHexDigits, if_neg h, Option.isSome_some]) h
  rw [hiff, hfirst]
  cases hexPrefix w s
  · simp
  · simp only [if_true, Bool.true_eq_false, false_and, and_false, false_or, true_and]
    exact and_congr_left fun _ => by omega

/-- Two digits at most are read exactly where they can start. -/
theorem scanHex_isSome (s : List UInt8) : (scanHex 2 s).isSome = true ↔ HexStart s := by
  unfold scanHex HexStart
  rw [Option.isSome_map]
  cases s.dropWhile isSpace with
  | nil => simp [sign, scanHexDigits, hexPrefix]
  | cons c t =>
      have hsigns : Hex.isDigit 43 = false ∧ Hex.isDigit 45 = false := ⟨rfl, rfl⟩
      have hpre : ∀ l, hexPrefix 1 l = false := by
        intro l
        unfold hexPrefix
        split <;> rfl
      by_cases h₁ : c = 45
      · subst h₁
        simp [sign, scanHexDigits_isSome, hpre, hsigns]
      · by_cases h₂ : c = 43
        · subst h₂
          simp [sign, scanHexDigits_isSome, hpre, hsigns]
        · simp only [sign_of_ne h₁ h₂, lt_irrefl, if_false, scanHexDigits_isSome, h₁, h₂, or_self,
            false_and, or_false]
          simp [and_comm]

end Scanf
