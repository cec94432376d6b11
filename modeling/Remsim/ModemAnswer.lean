import Remsim.HexCodec

/-! # Answers of the modem (`modem_fd_cb()`)

The OpenWRT client reads from the serial device of the modem, looks for the first `+CSIM:` in what
it has read, and forwards the octets that the quoted string after it denotes.  A read can end
anywhere in a line.  `sscanf()` assigns the string also when its closing quote is missing, and the
length in front of it is not looked at.

* `answersExactly_iff`: the buffers for which exactly the complete answers become APDUs. -/

namespace Remsim
namespace OpenWrt

open CString Scanf

/-- `+CSIM:`. -/
def csim : List UInt8 := ascii "+CSIM:"

/-- `+CSIM: %d,"%1023[^"]"`. -/
def csimFormat : List Directive :=
  lits csim ++ [.space, .dec, .lit 44, .lit 34, .span 1023 34, .lit 34]

/-- `modem_fd_cb()`: the TPDUs that are dispatched after a read. -/
def modemFdCb (buf : List UInt8) : List (List UInt8) :=
  match strstr csim (cstr buf) with
  | none => []
  | some csimStart =>
      match sscanf csimFormat csimStart with
      | [.int _, .text hexResp] =>
          let parsed := hexStrToBin hexResp 512
          if parsed.1 > 0 then [parsed.2] else []
      | _ => []

/-! ### The claim about a buffer -/

/-- The line that answers with the APDU `x`. -/
def csimLine (x : List UInt8) : List UInt8 :=
  csim ++ (32 :: Decimal.numeral (2 * x.length)) ++ 44 :: 34 :: (Hex.encode x ++ [34])

/-- The buffer holds the answer `x`, and no other `+CSIM:`. -/
structure OnlyLine (buf pre x post : List UInt8) : Prop where
  line : buf = pre ++ (csimLine x ++ post)
  only : ∀ a b, buf = a ++ (csim ++ b) → a = pre

/-- After `+CSIM:` comes a number, a comma and a quote. -/
def Opens (u : List UInt8) (n : ℤ) (v : List UInt8) : Prop := scanDec u = some (n, 44 :: 34 :: v)

/-- The buffer holds a `+CSIM:` field with a closed string of the length it declares. -/
def Complete (buf : List UInt8) : Prop :=
  ∃ a u str post, buf = a ++ (csim ++ u) ∧ Opens u (str.length : ℕ) (str ++ 34 :: post) ∧ 34 ∉ str

/-- Complete answers become APDUs, and nothing else does. -/
structure AnswersExactly (buf : List UInt8) : Prop where
  complete : ∀ pre x post, 1 ≤ x.length → x.length ≤ 512 → OnlyLine buf pre x post →
    modemFdCb buf = [x]
  only : modemFdCb buf ≠ [] → Complete buf

/-- The part of a string that `sscanf()` assigns. -/
def assigned (v : List UInt8) : List UInt8 := spanned 1023 34 v

/-- Something that begins like a hexadecimal number stands at each pair. -/
def Readable (hex : List UInt8) : Prop :=
  hex ≠ [] ∧ hex.length % 2 = 0 ∧ ∀ i < hex.length / 2, HexStart (hex.drop (2 * i))

/-! ### What is dispatched -/

variable {buf pre x post u v : List UInt8} {n : ℤ}

theorem sscanf_quoted {r hexResp : List UInt8} :
    sscanf [.lit 44, .lit 34, .span 1023 34, .lit 34] r = [.text hexResp] ↔
      ∃ v, r = 44 :: 34 :: v ∧ assigned v = hexResp ∧ hexResp ≠ [] := by
  constructor
  · intro h
    by_cases h₁ : r.head? = some 44
    · obtain ⟨r, rfl⟩ := List.head?_eq_some_iff.mp h₁
      rw [sscanf_lit] at h
      by_cases h₂ : r.head? = some 34
      · obtain ⟨v, rfl⟩ := List.head?_eq_some_iff.mp h₂
        rw [sscanf_lit] at h
        by_cases h₃ : spanned 1023 34 v = []
        · rw [sscanf_span_nil h₃] at h
          cases h
        · rw [sscanf_span h₃] at h
          obtain rfl := Val.text.inj (List.cons.inj h).1
          exact ⟨v, rfl, rfl, h₃⟩
      · rw [sscanf_lit_of_ne h₂] at h
        cases h
    · rw [sscanf_lit_of_ne h₁] at h
      cases h
  · rintro ⟨v, rfl, rfl, hne⟩
    rw [sscanf_lit, sscanf_lit, sscanf_span hne]
    cases hd : v.drop (spanned 1023 34 v).length with
    | nil => rw [sscanf_lit_of_ne (by simp), assigned]
    | cons c t =>
        by_cases hc : c = 34
        · rw [hc, sscanf_lit, sscanf, assigned]
        · rw [sscanf_lit_of_ne (by simpa using hc), assigned]

theorem sscanf_csim {hexResp : List UInt8} :
    sscanf csimFormat (csim ++ u) = [.int n, .text hexResp] ↔
      ∃ v, Opens u n v ∧ assigned v = hexResp ∧ hexResp ≠ [] := by
  rw [csimFormat, sscanf_lits, sscanf_space]
  cases hs : scanDec u with
  | none =>
      rw [sscanf_dec_none (by rw [scanDec_dropWhile, hs])]
      refine iff_of_false (List.cons_ne_nil _ _).symm ?_
      rintro ⟨v, hv, -⟩
      rw [Opens, hs] at hv
      cases hv
  | some x =>
      obtain ⟨m, r⟩ := x
      rw [sscanf_dec (by rw [scanDec_dropWhile, hs]), List.cons.injEq, Val.int.injEq, sscanf_quoted]
      simp only [Opens, hs, Option.some.injEq, Prod.mk.injEq]
      exact ⟨fun ⟨h₁, v, h₂, h₃⟩ => ⟨v, ⟨h₁, h₂⟩, h₃⟩, fun ⟨v, ⟨h₁, h₂⟩, h₃⟩ => ⟨h₁, v, h₂, h₃⟩⟩

theorem length_assigned_le (v : List UInt8) : (assigned v).length ≤ 1023 := List.length_take_le _ _

theorem hexStrToBin_pos {hexResp : List UInt8} (h : hexResp.length ≤ 1023) :
    (hexStrToBin hexResp 512).1 > 0 ↔ Readable hexResp := by
  unfold Readable
  rw [← List.length_pos_iff]
  constructor
  · intro hpos
    have hacc := hexStrToBin_nonneg.mp hpos.le
    rw [hexStrToBin_fst hpos.le] at hpos
    exact ⟨by omega, hacc.1, hacc.2.2⟩
  · rintro ⟨hne, heven, hstart⟩
    rw [hexStrToBin_fst (hexStrToBin_nonneg.mpr ⟨heven, by omega, hstart⟩)]
    omega

/-- The APDU of a buffer whose first field opens with a number, a comma and a quote. -/
theorem modemFdCb_of_opens (hs : strstr csim (cstr buf) = some (csim ++ u)) (ho : Opens u n v)
    (hr : Readable (assigned v)) : modemFdCb buf = [(hexStrToBin (assigned v) 512).2] := by
  have hscan := sscanf_csim.mpr ⟨v, ho, rfl, hr.1⟩
  simp only [modemFdCb, hs, hscan, if_pos ((hexStrToBin_pos (length_assigned_le v)).mpr hr)]

/-- A TPDU is dispatched exactly if the first field opens so, and something can be read at each pair
behind the quote. -/
theorem modemFdCb_ne_nil : modemFdCb buf ≠ [] ↔
    ∃ u n v, strstr csim (cstr buf) = some (csim ++ u) ∧ Opens u n v ∧ Readable (assigned v) := by
  constructor
  · intro h
    unfold modemFdCb at h
    split at h
    · exact absurd rfl h
    · next t ht =>
        obtain ⟨_, u, _, rfl⟩ := strstr_some ht
        split at h
        · next n hexResp hscan =>
            obtain ⟨v, ho, rfl, -⟩ := sscanf_csim.mp hscan
            dsimp only at h
            split_ifs at h with hpos
            · exact ⟨u, n, v, ht, ho, (hexStrToBin_pos (length_assigned_le v)).mp hpos⟩
            · exact absurd rfl h
        · exact absurd rfl h
  · rintro ⟨u, n, v, hs, ho, hr⟩
    rw [modemFdCb_of_opens hs ho hr]
    exact List.cons_ne_nil _ _

/-! ### Complete answers -/

theorem csimLine_append (x t : List UInt8) : csimLine x ++ t =
    csim ++ (32 :: (Decimal.numeral (2 * x.length) ++ 44 :: 34 :: (Hex.encode x ++ 34 :: t))) := by
  simp only [csimLine, List.append_assoc, List.cons_append, List.nil_append]

theorem zero_notMem_csimLine (x : List UInt8) : 0 ∉ csimLine x := by
  have hnum : (0 : UInt8) ∉ Decimal.numeral (2 * x.length) := fun h =>
    absurd (Decimal.isDigit_numeral _ _ h) (by decide)
  have hhex : (0 : UInt8) ∉ Hex.encode x := fun h => absurd (Hex.isDigit_encode _ _ h) (by decide)
  have hcsim : (0 : UInt8) ∉ csim := by decide
  simp [csimLine, hcsim, hnum, hhex]

theorem opens_csimLine (x t : List UInt8) :
    Opens (32 :: (Decimal.numeral (2 * x.length) ++ 44 :: 34 :: (Hex.encode x ++ 34 :: t)))
      (2 * x.length : ℕ) (Hex.encode x ++ 34 :: t) := by
  rw [Opens, ← scanDec_dropWhile, List.dropWhile_cons_of_pos (by decide), scanDec_dropWhile,
    scanDec_numeral _ (by decide)]

theorem quote_notMem_encode (x : List UInt8) : 34 ∉ Hex.encode x := fun h =>
  absurd (Hex.isDigit_encode _ _ h) (by decide)

/-- The first 1023 digits of an answer are assigned. -/
theorem assigned_encode (x t : List UInt8) :
    assigned (Hex.encode x ++ 34 :: t) = (Hex.encode x).take 1023 := by
  rw [assigned, spanned, List.takeWhile_append_of_pos, List.takeWhile_cons_of_neg (by decide),
    List.append_nil]
  intro c hc
  rw [decide_eq_true_eq]
  rintro rfl
  exact quote_notMem_encode x hc

theorem readable_encode (h1 : 1 ≤ x.length) (h : x.length < 512) (t : List UInt8) :
    Readable (assigned (Hex.encode x ++ 34 :: t)) ∧
      (hexStrToBin (assigned (Hex.encode x ++ 34 :: t)) 512).2 = x := by
  have hlen := Hex.length_encode x
  have htake : (Hex.encode x).take 1023 = Hex.encode x := List.take_of_length_le (by omega)
  rw [assigned_encode, htake, ← hexStrToBin_pos (by omega),
    hexStrToBin_digits (Hex.isDigit_encode x) (by omega) (by omega), Hex.decode_encode]
  exact ⟨by omega, rfl⟩

/-- A line in the string of the buffer is the first field. -/
theorem OnlyLine.found (h : OnlyLine buf pre x post) (h0 : 0 ∉ pre) :
    strstr csim (cstr buf) = some (csimLine x ++ cstr post) := by
  have hstr : cstr buf = pre ++ (csimLine x ++ cstr post) := by
    rw [h.line, cstr_append h0, cstr_append (zero_notMem_csimLine x)]
  rw [csimLine_append] at hstr ⊢
  refine strstr_of_unique hstr fun a b hab => ?_
  obtain ⟨t, ht⟩ := exists_eq_cstr_append buf
  refine h.only a (b ++ t) ?_
  rw [hab] at ht
  rw [ht, List.append_assoc, List.append_assoc]

/-- Behind a NUL nothing is found. -/
theorem OnlyLine.not_found (h : OnlyLine buf pre x post) (h0 : 0 ∈ pre) :
    strstr csim (cstr buf) = none := by
  rw [Option.eq_none_iff_forall_ne_some]
  intro t ht
  obtain ⟨a, b, hab, -⟩ := strstr_some ht
  obtain ⟨s, hs⟩ := exists_eq_cstr_append pre
  have hstr : cstr buf = cstr pre := by rw [h.line, cstr_append_of_mem h0]
  rw [hstr] at hab
  have hpre : a = pre := by
    refine h.only a (b ++ s ++ (csimLine x ++ post)) ?_
    rw [h.line]
    conv_lhs => rw [hs, hab]
    simp only [List.append_assoc]
  have hlen := congrArg List.length hs
  rw [hab, List.length_append, List.length_append, List.length_append, hpre] at hlen
  have : csim.length = 6 := by decide
  omega

/-- **Exactly the complete answers become APDUs** if and only if a `+CSIM:` line that is the only one
answers with less than 512 octets and has no NUL in front of it, and a buffer whose first field
opens, and can be read up to the next quote, the end of the read or the 1023rd character, has a
complete field. -/
theorem answersExactly_iff (buf : List UInt8) : AnswersExactly buf ↔
    (∀ pre x post, 1 ≤ x.length → x.length ≤ 512 → OnlyLine buf pre x post →
      x.length < 512 ∧ 0 ∉ pre) ∧
    ∀ u n v, strstr csim (cstr buf) = some (csim ++ u) → Opens u n v → Readable (assigned v) →
      Complete buf := by
  constructor
  · rintro ⟨hcomplete, honly⟩
    refine ⟨fun pre x post h1 h512 hline => ?_, fun u n v hs ho hr =>
      honly (modemFdCb_ne_nil.mpr ⟨u, n, v, hs, ho, hr⟩)⟩
    have hx := hcomplete pre x post h1 h512 hline
    have hne : modemFdCb buf ≠ [] := by
      rw [hx]
      exact List.cons_ne_nil _ _
    obtain ⟨u, n, v, hs, ho, hr⟩ := modemFdCb_ne_nil.mp hne
    have h0 : 0 ∉ pre := by
      intro h0
      rw [hline.not_found h0] at hs
      cases hs
    refine ⟨lt_of_le_of_ne h512 fun heq => ?_, h0⟩
    -- of 1024 digits an odd number is assigned
    rw [hline.found h0, csimLine_append, Option.some.injEq, List.append_cancel_left_eq] at hs
    have ho' := opens_csimLine x (cstr post)
    rw [hs, Opens, ho, Option.some.injEq, Prod.mk.injEq] at ho'
    obtain rfl := (List.cons.inj (List.cons.inj ho'.2).2).2
    have hodd := hr.2.1
    rw [assigned_encode, List.length_take, Hex.length_encode, heq] at hodd
    exact absurd hodd (by decide)
  · rintro ⟨hlines, hfields⟩
    refine ⟨fun pre x post h1 h512 hline => ?_, fun hne => ?_⟩
    · obtain ⟨hlt, h0⟩ := hlines pre x post h1 h512 hline
      obtain ⟨hr, hx⟩ := readable_encode h1 hlt (cstr post)
      rw [modemFdCb_of_opens (by rw [hline.found h0, csimLine_append]) (opens_csimLine x _) hr, hx]
    · obtain ⟨u, n, v, hs, ho, hr⟩ := modemFdCb_ne_nil.mp hne
      exact hfields u n v hs ho hr

/-- A read ends in the middle of an answer of four octets: the first two are forwarded. -/
theorem cutAnswer_forwarded :
    modemFdCb (ascii "+CSIM: 8,\"6F10") = [[0x6f, 0x10]] ∧
      ¬AnswersExactly (ascii "+CSIM: 8,\"6F10") := by
  have hdis : modemFdCb (ascii "+CSIM: 8,\"6F10") = [[0x6f, 0x10]] := by decide
  refine ⟨hdis, fun h => ?_⟩
  obtain ⟨a, u, str, post, hbuf, ho, -⟩ := h.only (by rw [hdis]; exact List.cons_ne_nil _ _)
  -- a closed string takes two quotes
  have hquotes : 2 ≤ u.count 34 := by
    refine le_trans ?_ ((scanDec_suffix ho).sublist.count_le 34)
    rw [List.count_cons_of_ne (by decide), List.count_cons_self, List.count_append,
      List.count_cons_self]
    omega
  have hone : (ascii "+CSIM: 8,\"6F10").count 34 = 1 := by decide
  rw [hbuf, List.count_append, List.count_append] at hone
  omega

end OpenWrt
end Remsim
