import Remsim.Delimited
import Remsim.Der

/-! # Tags and lengths of BER (`ber_tlv_tag.c`, `ber_tlv_length.c`)

The octets in front of the contents of an element: reading them, writing them, and skipping an
element whose contents nobody knows.  A tag is the number that the C code keeps it in, four times
its value plus its class.

`Identifier`, `Definite` and `Element` say which octets X.690 allows there: all forms of a tag and
of a length, not only the shortest one, and elements nested to any depth.  The theorems about
`berFetchTag`, `berFetchLength` and `berSkipLength` are for all of them; `identifier_serialize` and
`definite_lengthOctets` are the ones that are written. -/

namespace Remsim.Ber

open Delimited

/-! ### The functions -/

/-- `BER_TLV_CONSTRUCTED()`: bit 6 of the first octet. -/
def berTlvConstructed : List UInt8 → Bool
  | [] => false
  | o :: _ => o.toNat / 32 % 2 = 1

/-- The octets of `ber_fetch_tag()` after the first one.  A value that could not take another seven
bits is refused. -/
def fetchTagValue (tclass : ℕ) : (val skipped : ℕ) → List UInt8 → Outcome ℕ
  | _, _, [] => .more
  | val, skipped, oct :: rest =>
      if 128 ≤ oct.toNat then
        let val := 128 * val + oct.toNat % 128
        if val / 2 ^ 23 ≠ 0 then .fail else fetchTagValue tclass val (skipped + 1) rest
      else .ok (4 * (128 * val + oct.toNat) + tclass) skipped

/-- `ber_fetch_tag()`. -/
def berFetchTag : List UInt8 → Outcome ℕ
  | [] => .more
  | val :: rest =>
      let tclass := val.toNat / 64
      if val.toNat % 32 ≠ 31 then .ok (4 * (val.toNat % 32) + tclass) 1
      else fetchTagValue tclass 0 2 rest

/-- The octets of `ber_fetch_length()` after the first one, `oct` of them still to come. -/
def fetchLengthOctets : (oct len skipped : ℕ) → List UInt8 → Outcome ℤ
  | 0, len, skipped, _ => if 2 ^ 63 ≤ len + 1024 then .fail else .ok len skipped
  | _ + 1, _, _, [] => .more
  | oct + 1, len, skipped, buf :: rest =>
      let len := 256 * len + buf.toNat
      if 2 ^ 63 ≤ len ∨ (len / 2 ^ 56 ≠ 0 ∧ 0 < oct) then .fail
      else fetchLengthOctets oct len (skipped + 1) rest

/-- `ber_fetch_length()`; `-1` is the indefinite length. -/
def berFetchLength (constructed : Bool) : List UInt8 → Outcome ℤ
  | [] => .more
  | oct :: rest =>
      if oct.toNat < 128 then .ok oct.toNat 1
      else if constructed ∧ oct = 0x80 then .ok (-1) 1
      else if oct = 0xff then .fail
      else fetchLengthOctets (oct.toNat % 128) 0 1 rest

/-- Whether two zero octets stand at the front. -/
def endOfContents : List UInt8 → Bool
  | 0 :: 0 :: _ => true
  | _ => false

/-- The loop of `ber_skip_length()` over the elements inside of an indefinite length; `skipInner` is
the recursive call, and `fuel` bounds the rounds. -/
def skipElements (skipInner : Bool → List UInt8 → Outcome Unit) :
    (fuel skip : ℕ) → List UInt8 → Outcome Unit
  | 0, _, _ => .hang
  | fuel + 1, skip, ptr =>
      (berFetchTag ptr).bind fun _ tl =>
        (skipInner (berTlvConstructed ptr) (ptr.drop tl)).bind fun _ ll =>
          if endOfContents ptr then .ok () (skip + tl + ll)
          else skipElements skipInner fuel (skip + tl + ll) (ptr.drop (tl + ll))

/-- `ber_skip_length()`; `stack` is the number of its activations that fit below the maximum stack
size. -/
def berSkipLength : (stack : ℕ) → (constructed : Bool) → List UInt8 → Outcome Unit
  | 0, _, _ => .fail
  | stack + 1, constructed, ptr =>
      (berFetchLength constructed ptr).bind fun vlen ll =>
        if 0 ≤ vlen then
          if ptr.length < ll + vlen.toNat then .more else .ok () (ll + vlen.toNat)
        else skipElements (berSkipLength stack) (ptr.length + 1) ll (ptr.drop ll)

/-- The digits of a tag value to the base 128, all but the last with the top bit. -/
def continuing (val : ℕ) : List UInt8 :=
  if h : val = 0 then []
  else continuing (val / 128) ++ [.ofNat (128 + val % 128)]
termination_by val
decreasing_by omega

/-- `ber_tlv_tag_serialize()`. -/
def berTlvTagSerialize (tag : ℕ) : List UInt8 :=
  let tclass := tag % 4
  let tval := tag / 4
  if tval ≤ 30 then [.ofNat (64 * tclass + tval)]
  else .ofNat (64 * tclass + 31) :: (continuing (tval / 128) ++ [.ofNat (tval % 128)])

/-! ### Identifier octets -/

/-- The digits after the ones of `val`, and the number that they make up. -/
inductive TagDigits : ℕ → List UInt8 → ℕ → Prop where
  | last {val : ℕ} {o : UInt8} (ho : o.toNat < 128) : TagDigits val [o] (128 * val + o.toNat)
  | next {val w : ℕ} {o : UInt8} {l : List UInt8} (ho : 128 ≤ o.toNat)
      (hval : 128 * val + o.toNat % 128 < 2 ^ 23)
      (h : TagDigits (128 * val + o.toNat % 128) l w) : TagDigits val (o :: l) w

/-- **The identifier octets of a tag**, of a primitive or a constructed element: one octet, or one
and up to five digits of the value. -/
inductive Identifier (constructed : Bool) : ℕ → List UInt8 → Prop where
  | short {o : UInt8} (hform : decide (o.toNat / 32 % 2 = 1) = constructed)
      (hval : o.toNat % 32 ≠ 31) : Identifier constructed (4 * (o.toNat % 32) + o.toNat / 64) [o]
  | long {o : UInt8} {digits : List UInt8} {val : ℕ}
      (hform : decide (o.toNat / 32 % 2 = 1) = constructed) (hval : o.toNat % 32 = 31)
      (hlen : digits.length ≤ 5) (h : TagDigits 0 digits val) :
      Identifier constructed (4 * val + o.toNat / 64) (o :: digits)

section tags

variable {constructed : Bool} {tag val w : ℕ} {l h : List UInt8}

theorem TagDigits.fetch (hd : TagDigits val l w) (tclass skipped : ℕ) (rest : List UInt8) :
    fetchTagValue tclass val skipped (l ++ rest) =
      .ok (4 * w + tclass) (skipped + (l.length - 1)) := by
  induction hd generalizing skipped with
  | last ho =>
      rw [List.singleton_append, fetchTagValue, if_neg (Nat.not_le.mpr ho)]
      rfl
  | @next val w o l ho hval hl ih =>
      have hlen : 0 < l.length := by cases hl <;> exact Nat.succ_pos _
      have hdiv : (128 * val + o.toNat % 128) / 2 ^ 23 = 0 := Nat.div_eq_of_lt hval
      rw [List.cons_append, fetchTagValue, if_pos ho]
      simp only [hdiv, ne_eq, not_true_eq_false, if_false]
      rw [ih, List.length_cons]
      congr 1
      omega

theorem TagDigits.fetch_cut (hd : TagDigits val l w) (tclass skipped : ℕ) {p q : List UInt8}
    (hq : q ≠ []) (hpq : p ++ q = l) : fetchTagValue tclass val skipped p = .more := by
  induction hd generalizing skipped p with
  | last ho =>
      cases p with
      | nil => rfl
      | cons o' p =>
          rw [List.cons_append, List.cons.injEq, List.append_eq_nil_iff] at hpq
          exact absurd hpq.2.2 hq
  | @next val w o l ho hval hl ih =>
      cases p with
      | nil => rfl
      | cons o' p =>
          rw [List.cons_append, List.cons.injEq] at hpq
          have hdiv : (128 * val + o.toNat % 128) / 2 ^ 23 = 0 := Nat.div_eq_of_lt hval
          rw [hpq.1, fetchTagValue, if_pos ho]
          simp only [hdiv, ne_eq, not_true_eq_false, if_false]
          exact ih _ hpq.2

/-- **`ber_fetch_tag()` reads every form of a tag.** -/
theorem Identifier.reads (hi : Identifier constructed tag h) : Reads berFetchTag h tag := by
  cases hi with
  | @short o hform hval =>
      constructor
      · intro rest
        rw [List.singleton_append, berFetchTag]
        exact if_pos hval
      · intro p q hq hpq
        cases p with
        | nil => rfl
        | cons o' p =>
            rw [List.cons_append, List.cons.injEq, List.append_eq_nil_iff] at hpq
            exact absurd hpq.2.2 hq
  | @long o digits val hform hval _ hd =>
      have hlen : 0 < digits.length := by cases hd <;> exact Nat.succ_pos _
      constructor
      · intro rest
        rw [List.cons_append, berFetchTag]
        simp only [hval, ne_eq, not_true_eq_false, if_false]
        rw [hd.fetch, List.length_cons]
        congr 1
        omega
      · intro p q hq hpq
        cases p with
        | nil => rfl
        | cons o' p =>
            rw [List.cons_append, List.cons.injEq] at hpq
            rw [hpq.1, berFetchTag]
            simp only [hval, ne_eq, not_true_eq_false, if_false]
            exact hd.fetch_cut _ _ hq hpq.2

theorem Identifier.constructed_append (hi : Identifier constructed tag h) (rest : List UInt8) :
    berTlvConstructed (h ++ rest) = constructed := by
  cases hi with
  | short hform _ => exact hform
  | long hform _ _ _ => exact hform

theorem Identifier.length_le (hi : Identifier constructed tag h) : h.length ≤ 6 := by
  cases hi with
  | short _ _ => exact Nat.le_add_left 1 5
  | long _ _ hlen _ => exact Nat.succ_le_succ hlen

/-- Only the tag of the end-of-contents octets begins with a zero octet. -/
theorem Identifier.head_ne_zero (hi : Identifier constructed tag h) (ht : tag ≠ 0) :
    ∃ o l, h = o :: l ∧ o ≠ 0 := by
  cases hi with
  | @short o _ _ =>
      refine ⟨o, [], rfl, ?_⟩
      rintro rfl
      exact ht rfl
  | @long o digits _ _ hval _ _ =>
      refine ⟨o, digits, rfl, ?_⟩
      rintro rfl
      exact absurd hval (by decide)

theorem toNat_octet {n : ℕ} (hn : n < 256) : (UInt8.ofNat n).toNat = n :=
  UInt8.toNat_ofNat_of_lt' hn

theorem firstOctet {tclass low : ℕ} (hc : tclass < 4) (hl : low < 32) :
    (UInt8.ofNat (64 * tclass + low)).toNat % 32 = low ∧
      (UInt8.ofNat (64 * tclass + low)).toNat / 64 = tclass ∧
      (UInt8.ofNat (64 * tclass + low)).toNat / 32 % 2 = 0 := by
  rw [toNat_octet (by omega)]
  interval_cases tclass <;> omega

theorem tagDigits_continuing (hval : val < 2 ^ 23) (hl : TagDigits val l w) :
    TagDigits 0 (continuing val ++ l) w := by
  induction val using Nat.strong_induction_on generalizing l with
  | _ val ih =>
    rw [continuing]
    by_cases h0 : val = 0
    · rw [dif_pos h0, List.nil_append]
      rwa [h0] at hl
    · have ho : (UInt8.ofNat (128 + val % 128)).toNat = 128 + val % 128 := toNat_octet (by omega)
      have hback : 128 * (val / 128) + (UInt8.ofNat (128 + val % 128)).toNat % 128 = val := by
        rw [ho]
        omega
      rw [dif_neg h0, List.append_assoc, List.singleton_append]
      apply ih (val / 128) (by omega) (by omega)
      apply TagDigits.next
      · rw [ho]
        omega
      · rwa [hback]
      · rwa [hback]

theorem length_continuing {k : ℕ} (hval : val < 128 ^ k) : (continuing val).length ≤ k := by
  induction k generalizing val with
  | zero =>
      have h0 : val = 0 := Nat.lt_one_iff.mp hval
      rw [continuing, dif_pos h0]
      rfl
  | succ k ih =>
      rw [continuing]
      split_ifs with h0
      · exact Nat.zero_le _
      · rw [List.length_append, List.length_singleton]
        apply Nat.succ_le_succ
        apply ih
        exact Nat.div_lt_of_lt_mul (by rwa [pow_succ'] at hval)

/-- **The octets that are written for a tag.** -/
theorem identifier_serialize (ht : tag < 2 ^ 32) :
    Identifier false tag (berTlvTagSerialize tag) := by
  have hclass : tag % 4 < 4 := Nat.mod_lt _ (by decide)
  unfold berTlvTagSerialize
  by_cases hval : tag / 4 ≤ 30
  · obtain ⟨hlow, hhigh, hbit⟩ := firstOctet hclass (show tag / 4 < 32 by omega)
    have hi := @Identifier.short false (.ofNat (64 * (tag % 4) + tag / 4))
      (by rw [hbit]; rfl) (by rw [hlow]; omega)
    rw [hlow, hhigh, Nat.div_add_mod] at hi
    simp only [if_pos hval]
    exact hi
  · obtain ⟨hlow, hhigh, hbit⟩ := firstOctet hclass (show 31 < 32 by omega)
    have hlast : (UInt8.ofNat (tag / 4 % 128)).toNat = tag / 4 % 128 := toNat_octet (by omega)
    have hd := @TagDigits.last (tag / 4 / 128) (.ofNat (tag / 4 % 128)) (by omega)
    rw [hlast, Nat.div_add_mod] at hd
    have hlen :
        (continuing (tag / 4 / 128) ++ [.ofNat (tag / 4 % 128)] : List UInt8).length ≤ 5 := by
      have := @length_continuing (tag / 4 / 128) 4 (by omega)
      rw [List.length_append, List.length_singleton]
      omega
    have hi := @Identifier.long false (.ofNat (64 * (tag % 4) + 31)) _ _
      (by rw [hbit]; rfl) hlow hlen (tagDigits_continuing (by omega) hd)
    rw [hhigh, Nat.div_add_mod] at hi
    simp only [if_neg hval]
    exact hi

theorem fetchTagValue_ne_hang (tclass val skipped : ℕ) (data : List UInt8) :
    fetchTagValue tclass val skipped data ≠ .hang := by
  induction data generalizing val skipped with
  | nil =>
      intro h
      cases h
  | cons oct rest ih =>
      rw [fetchTagValue]
      dsimp only
      split_ifs
      · intro h
        cases h
      · exact ih _ _
      · intro h
        cases h

theorem returns_fetchTag : Returns berFetchTag := by
  intro data h
  cases data with
  | nil => cases h
  | cons o rest =>
      rw [berFetchTag] at h
      split at h
      · cases h
      · exact fetchTagValue_ne_hang _ _ _ _ h

theorem fetchTagValue_bounds {tclass skipped n : ℕ} {data : List UInt8}
    (h : fetchTagValue tclass val skipped data = .ok tag n) :
    skipped ≤ n ∧ n < skipped + data.length := by
  induction data generalizing val skipped with
  | nil => cases h
  | cons oct rest ih =>
      rw [fetchTagValue] at h
      rw [List.length_cons]
      split at h
      · dsimp only at h
        split at h
        · cases h
        · have := ih h
          omega
      · cases h
        omega

theorem fetchTag_bounds {data : List UInt8} {n : ℕ} (h : berFetchTag data = .ok tag n) :
    1 ≤ n ∧ n ≤ data.length := by
  cases data with
  | nil => cases h
  | cons o rest =>
      rw [berFetchTag] at h
      rw [List.length_cons]
      split at h
      · cases h
        omega
      · have := fetchTagValue_bounds h
        omega

end tags

/-! ### Length octets -/

/-- The number that octets make up, most significant first. -/
def ofOctets (val : ℕ) (l : List UInt8) : ℕ := l.foldl (fun v o => 256 * v + o.toNat) val

/-- **The length octets of a definite length**: one octet, or the number of further ones and the
digits, of which the leading ones may be zero. -/
inductive Definite (n : ℕ) : List UInt8 → Prop where
  | short (hn : n < 128) : Definite n [.ofNat n]
  | long {digits : List UInt8} (hpos : 0 < digits.length) (hlen : digits.length < 127)
      (hval : ofOctets 0 digits = n) (hmax : n + 1024 < 2 ^ 63) :
      Definite n (.ofNat (128 + digits.length) :: digits)

section lengths

variable {n val skipped : ℕ} {l : List UInt8}

theorem le_ofOctets (val : ℕ) (l : List UInt8) : val ≤ ofOctets val l := by
  unfold ofOctets
  induction l generalizing val with
  | nil => exact le_rfl
  | cons o l ih =>
      have := ih (256 * val + o.toNat)
      rw [List.foldl_cons]
      omega

theorem fetchLengthOctets_append (hmax : ofOctets val l + 1024 < 2 ^ 63) (rest : List UInt8) :
    fetchLengthOctets l.length val skipped (l ++ rest) =
      .ok (ofOctets val l) (skipped + l.length) := by
  induction l generalizing val skipped with
  | nil => exact if_neg (Nat.not_le.mpr hmax)
  | cons o l ih =>
      have hnext : ofOctets val (o :: l) = ofOctets (256 * val + o.toNat) l := rfl
      rw [hnext] at hmax ⊢
      have hle := le_ofOctets (256 * val + o.toNat) l
      -- another octet would multiply the length by 256
      have hbig : ¬((256 * val + o.toNat) / 2 ^ 56 ≠ 0 ∧ 0 < l.length) := by
        rintro ⟨hne, hpos⟩
        obtain ⟨o', l', rfl⟩ := List.exists_cons_of_length_pos hpos
        have hle' := le_ofOctets (256 * (256 * val + o.toNat) + o'.toNat) l'
        have hstep : ofOctets (256 * val + o.toNat) (o' :: l') =
          ofOctets (256 * (256 * val + o.toNat) + o'.toNat) l' := rfl
        omega
      have hok : ¬(2 ^ 63 ≤ 256 * val + o.toNat ∨
          (256 * val + o.toNat) / 2 ^ 56 ≠ 0 ∧ 0 < l.length) := by
        rintro (h | h)
        · omega
        · exact hbig h
      rw [List.length_cons, List.cons_append, fetchLengthOctets, if_neg hok, ih hmax]
      congr 1
      omega

theorem fetchLengthOctets_cut {p q : List UInt8} (hmax : ofOctets val l + 1024 < 2 ^ 63)
    (hq : q ≠ []) (hpq : p ++ q = l) : fetchLengthOctets l.length val skipped p = .more := by
  induction p generalizing val skipped l with
  | nil =>
      obtain ⟨o, l', rfl⟩ := List.exists_cons_of_ne_nil hq
      rw [← hpq, List.nil_append, List.length_cons, fetchLengthOctets]
  | cons o p ih =>
      subst hpq
      have hnext : ofOctets val (o :: (p ++ q)) = ofOctets (256 * val + o.toNat) (p ++ q) := rfl
      rw [List.cons_append, hnext] at hmax
      have hle := le_ofOctets (256 * val + o.toNat) (p ++ q)
      have hbig : ¬((256 * val + o.toNat) / 2 ^ 56 ≠ 0 ∧ 0 < (p ++ q).length) := by
        rintro ⟨hne, hpos⟩
        obtain ⟨o', l', he⟩ := List.exists_cons_of_length_pos hpos
        have hle' := le_ofOctets (256 * (256 * val + o.toNat) + o'.toNat) l'
        have hstep : ofOctets (256 * val + o.toNat) (p ++ q) =
          ofOctets (256 * (256 * val + o.toNat) + o'.toNat) l' := by rw [he]; rfl
        omega
      have hok : ¬(2 ^ 63 ≤ 256 * val + o.toNat ∨
          (256 * val + o.toNat) / 2 ^ 56 ≠ 0 ∧ 0 < (p ++ q).length) := by
        rintro (h | h)
        · omega
        · exact hbig h
      rw [List.cons_append, List.length_cons, fetchLengthOctets, if_neg hok]
      exact ih hmax rfl

/-- **`ber_fetch_length()` reads every form of a definite length.** -/
theorem Definite.reads (hd : Definite n l) (constructed : Bool) :
    Reads (berFetchLength constructed) l (n : ℤ) := by
  cases hd with
  | short hn =>
      constructor
      · intro rest
        have ho : (UInt8.ofNat n).toNat = n := toNat_octet (by omega)
        rw [List.singleton_append, berFetchLength, ho, if_pos hn]
        rfl
      · intro p q hq hpq
        cases p with
        | nil => rfl
        | cons o' p =>
            rw [List.cons_append, List.cons.injEq, List.append_eq_nil_iff] at hpq
            exact absurd hpq.2.2 hq
  | @long digits hpos hlen hval hmax =>
      have ho : (UInt8.ofNat (128 + digits.length)).toNat = 128 + digits.length :=
        toNat_octet (by omega)
      have h80 : UInt8.ofNat (128 + digits.length) ≠ 0x80 := by
        intro he
        rw [he] at ho
        have : (0x80 : UInt8).toNat = 128 := rfl
        omega
      have hff : UInt8.ofNat (128 + digits.length) ≠ 0xff := by
        intro he
        rw [he] at ho
        have : (0xff : UInt8).toNat = 255 := rfl
        omega
      have hstep : ∀ data, berFetchLength constructed (.ofNat (128 + digits.length) :: data) =
          fetchLengthOctets digits.length 0 1 data := by
        intro data
        rw [berFetchLength, ho, if_neg (by omega), if_neg (fun h => h80 h.2), if_neg hff]
        congr 1
        omega
      constructor
      · intro rest
        rw [List.cons_append, hstep, fetchLengthOctets_append (by omega), hval, List.length_cons,
          Nat.add_comm]
      · intro p q hq hpq
        cases p with
        | nil => rfl
        | cons o' p =>
            rw [List.cons_append, List.cons.injEq] at hpq
            rw [hpq.1, hstep]
            exact fetchLengthOctets_cut (by omega) hq hpq.2

theorem Definite.length_le (hd : Definite n l) : l.length ≤ 127 := by
  cases hd with
  | short _ => exact Nat.le_add_left 1 126
  | long _ hlen _ _ => exact hlen

theorem Definite.max (hd : Definite n l) : n + 1024 < 2 ^ 63 := by
  cases hd with
  | short hn => omega
  | long _ _ _ hmax => exact hmax

theorem ofOctets_digits (ds : List ℕ) (hds : ∀ d ∈ ds, d < 256) :
    ofOctets 0 (ds.reverse.map UInt8.ofNat) = Nat.ofDigits 256 ds := by
  unfold ofOctets
  induction ds with
  | nil => rfl
  | cons d ds ih =>
      have hd : (UInt8.ofNat d).toNat = d := toNat_octet (hds d List.mem_cons_self)
      rw [List.reverse_cons, List.map_append, List.foldl_append,
        ih fun x hx => hds x (List.mem_cons_of_mem _ hx), Nat.ofDigits_cons]
      simp only [List.map_cons, List.map_nil, List.foldl_cons, List.foldl_nil, hd]
      ring

theorem eight_octets (hn : n < 2 ^ 64) : (Nat.digits 256 n).length ≤ 8 :=
  (Nat.digits_length_le_iff (by decide) n).mpr (by omega)

/-- **The length octets that are written.** -/
theorem definite_lengthOctets (hmax : n + 1024 < 2 ^ 63) : Definite n (Der.lengthOctets n) := by
  unfold Der.lengthOctets
  by_cases hn : n ≤ 127
  · rw [if_pos hn]
    exact .short (by omega)
  · have hlen : (Nat.digits 256 n).length ≤ 8 := eight_octets (by omega)
    have hpos : 0 < (Nat.digits 256 n).length :=
      List.length_pos_of_ne_nil (Nat.digits_ne_nil_iff_ne_zero.mpr (by omega))
    have hmap :
        ((Nat.digits 256 n).reverse.map UInt8.ofNat).length = (Nat.digits 256 n).length := by
      rw [List.length_map, List.length_reverse]
    have hval : ofOctets 0 ((Nat.digits 256 n).reverse.map UInt8.ofNat) = n := by
      rw [ofOctets_digits _ fun d hd => Nat.digits_lt_base (by decide) hd, Nat.ofDigits_digits]
    have hfirst : ∀ k ≤ 8, (0x80 : UInt8) ||| .ofNat k = .ofNat (128 + k) := by decide
    have hl := Definite.long (by omega) (by omega) hval hmax
    rw [hmap] at hl
    rw [if_neg hn]
    simp only [hmap, hfirst _ hlen]
    exact hl

theorem fetchLengthOctets_ne_hang (oct len skipped : ℕ) (data : List UInt8) :
    fetchLengthOctets oct len skipped data ≠ .hang := by
  induction data generalizing oct len skipped with
  | nil =>
      cases oct with
      | zero =>
          rw [fetchLengthOctets]
          split_ifs <;> exact fun h => by cases h
      | succ oct =>
          intro h
          cases h
  | cons o rest ih =>
      cases oct with
      | zero =>
          rw [fetchLengthOctets]
          split_ifs <;> exact fun h => by cases h
      | succ oct =>
          rw [fetchLengthOctets]
          split_ifs
          · exact fun h => by cases h
          · exact ih _ _ _

theorem returns_fetchLength (constructed : Bool) : Returns (berFetchLength constructed) := by
  intro data h
  cases data with
  | nil => cases h
  | cons o rest =>
      rw [berFetchLength] at h
      split_ifs at h
      exact fetchLengthOctets_ne_hang _ _ _ _ h

theorem fetchLengthOctets_bounds {oct len m : ℕ} {v : ℤ} {data : List UInt8}
    (h : fetchLengthOctets oct len skipped data = .ok v m) :
    0 ≤ v ∧ skipped ≤ m ∧ m ≤ skipped + data.length := by
  induction data generalizing oct len skipped with
  | nil =>
      cases oct with
      | zero =>
          rw [fetchLengthOctets] at h
          split_ifs at h
          cases h
          exact ⟨Int.natCast_nonneg _, le_rfl, Nat.le_add_right _ _⟩
      | succ oct => cases h
  | cons o rest ih =>
      rw [List.length_cons]
      cases oct with
      | zero =>
          rw [fetchLengthOctets] at h
          split_ifs at h
          cases h
          exact ⟨Int.natCast_nonneg _, le_rfl, Nat.le_add_right _ _⟩
      | succ oct =>
          rw [fetchLengthOctets] at h
          split_ifs at h
          obtain ⟨hv, hlo, hhi⟩ := ih h
          exact ⟨hv, by omega, by omega⟩

/-- A length takes at least one octet, and no more than there are; only the indefinite length of a
constructed element is negative. -/
theorem fetchLength_bounds {constructed : Bool} {m : ℕ} {v : ℤ} {data : List UInt8}
    (h : berFetchLength constructed data = .ok v m) :
    (0 ≤ v ∨ v = -1 ∧ constructed = true) ∧ 1 ≤ m ∧ m ≤ data.length := by
  cases data with
  | nil => cases h
  | cons o rest =>
      rw [berFetchLength] at h
      rw [List.length_cons]
      split_ifs at h with h1 h2 h3
      · cases h
        exact ⟨.inl (Int.natCast_nonneg _), le_rfl, by omega⟩
      · cases h
        exact ⟨.inr ⟨rfl, h2.1⟩, le_rfl, by omega⟩
      · obtain ⟨hv, hlo, hhi⟩ := fetchLengthOctets_bounds h
        exact ⟨.inl hv, hlo, by omega⟩

theorem fetchLength_indefinite {constructed : Bool} {m : ℕ} {data : List UInt8}
    (h : berFetchLength constructed data = .ok (-1) m) :
    constructed = true ∧ m = 1 ∧ ∃ rest, data = 0x80 :: rest := by
  cases data with
  | nil => cases h
  | cons o rest =>
      rw [berFetchLength] at h
      split_ifs at h with h1 h2 h3
      · injection h with hv
        omega
      · cases h
        exact ⟨h2.1, rfl, rest, by rw [h2.2]⟩
      · have := (fetchLengthOctets_bounds h).1
        omega

end lengths

/-! ### Elements of unknown contents -/

/-- Elements in a row, each with the identifier octets of a tag in `Tag` and what `Body` allows
after them.  None has the tag that is reserved for the end of contents. -/
inductive Elements (Tag : ℕ → Prop) (Body : Bool → List UInt8 → Prop) : List UInt8 → Prop where
  | nil : Elements Tag Body []
  | cons {constructed : Bool} {tag : ℕ} {h b es : List UInt8}
      (hi : Identifier constructed tag h) (h0 : tag ≠ 0) (htag : Tag tag)
      (hb : Body constructed b) (hes : Elements Tag Body es) : Elements Tag Body (h ++ b ++ es)

/-- **The length and contents octets of an element**, its indefinite lengths nested less than
`stack` deep. -/
def Body : (stack : ℕ) → (constructed : Bool) → List UInt8 → Prop
  | 0, _, _ => False
  | stack + 1, constructed, b =>
      (∃ n l contents, Definite n l ∧ contents.length = n ∧ b = l ++ contents) ∨
        (constructed = true ∧ 0 < stack ∧
          ∃ es, Elements (fun _ => True) (Body stack) es ∧ b = 0x80 :: (es ++ [0, 0]))

section skipping

variable {inner : Bool → List UInt8 → Outcome Unit} {Tag : ℕ → Prop}
  {P : Bool → List UInt8 → Prop} {stack fuel skip : ℕ} {constructed : Bool} {b es : List UInt8}

theorem endOfContents_cons {o : UInt8} (ho : o ≠ 0) (l : List UInt8) :
    endOfContents (o :: l) = false := by
  unfold endOfContents
  split
  · rename_i heq
    injection heq with h0
    exact absurd h0 ho
  · rfl

theorem skipElements_append (hinner : ∀ c x, P c x → Reads (inner c) x ())
    (heoc : ∀ rest, inner false (0 :: rest) = .ok () 1) (hes : Elements Tag P es)
    (hfuel : es.length < fuel) (rest : List UInt8) :
    skipElements inner fuel skip (es ++ 0 :: 0 :: rest) = .ok () (skip + es.length + 2) := by
  induction hes generalizing fuel skip with
  | nil =>
      obtain ⟨fuel, rfl⟩ := Nat.exists_eq_add_of_lt hfuel
      have hfetch : berFetchTag (0 :: 0 :: rest) = .ok 0 1 := rfl
      rw [List.nil_append, skipElements, hfetch, Outcome.bind_ok, List.drop_one, List.tail_cons]
      rw [show berTlvConstructed (0 :: 0 :: rest) = false from rfl, heoc, Outcome.bind_ok]
      exact if_pos rfl
  | @cons c tag h x es hi h0 _ hx hes ih =>
      obtain ⟨o, t, rfl, ho⟩ := hi.head_ne_zero h0
      simp only [List.length_append, List.length_cons] at hfuel
      obtain ⟨fuel, rfl⟩ : ∃ k, fuel = k + 1 := ⟨fuel - 1, by omega⟩
      have hsplit : o :: t ++ x ++ es ++ 0 :: 0 :: rest =
          o :: t ++ (x ++ (es ++ 0 :: 0 :: rest)) := by
        simp only [List.append_assoc]
      have hdrop : (o :: t ++ (x ++ (es ++ 0 :: 0 :: rest))).drop ((o :: t).length + x.length) =
          es ++ 0 :: 0 :: rest := by
        rw [← List.append_assoc, ← List.length_append, List.drop_left]
      rw [hsplit, skipElements, hi.reads.complete, Outcome.bind_ok, List.drop_left,
        hi.constructed_append, (hinner c x hx).complete, Outcome.bind_ok, hdrop, List.cons_append,
        endOfContents_cons ho, if_neg Bool.false_ne_true, ih (by omega)]
      simp only [List.length_append, List.length_cons]
      congr 1
      omega

theorem skipElements_cut (hinner : ∀ c x, P c x → Reads (inner c) x ())
    (hnil : inner false [] = .more) (hes : Elements Tag P es) {p q : List UInt8}
    (hfuel : p.length < fuel) (hq : q ≠ []) (hpq : p ++ q = es ++ [0, 0]) :
    skipElements inner fuel skip p = .more := by
  induction hes generalizing fuel skip p with
  | nil =>
      obtain ⟨fuel, rfl⟩ := Nat.exists_eq_add_of_lt hfuel
      rw [List.nil_append] at hpq
      rcases p with _ | ⟨a, p⟩
      · rfl
      · rcases p with _ | ⟨b, p⟩
        · rw [List.singleton_append, List.cons.injEq] at hpq
          have hfetch : berFetchTag [0] = .ok 0 1 := rfl
          rw [hpq.1, skipElements, hfetch, Outcome.bind_ok, List.drop_one, List.tail_cons]
          rw [show berTlvConstructed [0] = false from rfl, hnil, Outcome.bind_more]
        · have hlen := congrArg List.length hpq
          have hpos := List.length_pos_of_ne_nil hq
          simp only [List.length_append, List.length_cons, List.length_nil] at hlen
          omega
  | @cons c tag h x es hi h0 _ hx hes ih =>
      obtain ⟨fuel, rfl⟩ : ∃ k, fuel = k + 1 := ⟨fuel - 1, by omega⟩
      rw [List.append_assoc, List.append_assoc] at hpq
      obtain ⟨r, hr, hp⟩ | ⟨p', rfl, hp'⟩ := append_cut hpq
      · rw [skipElements, hi.reads.cut p r hr hp, Outcome.bind_more]
      · rw [skipElements, hi.reads.complete, Outcome.bind_ok, List.drop_left,
          hi.constructed_append]
        obtain ⟨r, hr, hp⟩ | ⟨p'', rfl, hp''⟩ := append_cut hp'
        · rw [(hinner c x hx).cut p' r hr hp, Outcome.bind_more]
        · obtain ⟨o, t, rfl, ho⟩ := hi.head_ne_zero h0
          have hdrop : (o :: t ++ (x ++ p'')).drop ((o :: t).length + x.length) = p'' := by
            rw [← List.append_assoc, ← List.length_append, List.drop_left]
          simp only [List.length_append, List.length_cons] at hfuel
          rw [(hinner c x hx).complete, Outcome.bind_ok, hdrop, List.cons_append,
            endOfContents_cons ho, if_neg Bool.false_ne_true]
          exact ih (by omega) hp''

theorem reads_indefinite : Reads (berFetchLength true) [0x80] (-1) := by
  constructor
  · intro rest
    rfl
  · intro p q hq hpq
    cases p with
    | nil => rfl
    | cons o' p =>
        rw [List.cons_append, List.cons.injEq, List.append_eq_nil_iff] at hpq
        exact absurd hpq.2.2 hq

/-- **`ber_skip_length()` skips every element**, whatever the forms of its lengths, as long as the
stack is deep enough for its nesting. -/
theorem Body.reads (hb : Body stack constructed b) :
    Reads (berSkipLength stack constructed) b () := by
  induction stack generalizing constructed b with
  | zero => cases hb
  | succ stack ih =>
      obtain ⟨n, l, contents, hl, hlen, rfl⟩ | ⟨rfl, hstack, es, hes, rfl⟩ := hb
      · have h0 : (0 : ℤ) ≤ (n : ℤ) := Int.natCast_nonneg n
        constructor
        · intro rest
          rw [berSkipLength, List.append_assoc, (hl.reads constructed).complete, Outcome.bind_ok,
            if_pos h0, Int.toNat_natCast, if_neg, List.length_append, hlen]
          simp only [List.length_append]
          omega
        · intro p q hq hpq
          obtain ⟨r, hr, hp⟩ | ⟨p', rfl, hp'⟩ := append_cut hpq
          · rw [berSkipLength, (hl.reads constructed).cut p r hr hp, Outcome.bind_more]
          · have hpos := List.length_pos_of_ne_nil hq
            have hlen' := congrArg List.length hp'
            rw [List.length_append] at hlen'
            rw [berSkipLength, (hl.reads constructed).complete, Outcome.bind_ok, if_pos h0,
              Int.toNat_natCast, if_pos]
            rw [List.length_append]
            omega
      · obtain ⟨stack, rfl⟩ := Nat.exists_eq_add_of_lt hstack
        have heoc : ∀ rest, berSkipLength (0 + stack + 1) false (0 :: rest) = .ok () 1 := by
          intro rest
          have hfetch : berFetchLength false (0 :: rest) = .ok 0 1 := rfl
          rw [berSkipLength, hfetch, Outcome.bind_ok, if_pos le_rfl]
          refine if_neg ?_
          rw [List.length_cons, Int.toNat_zero]
          omega
        have hneg : ¬(0 : ℤ) ≤ -1 := by decide
        constructor
        · intro rest
          have hfetch := reads_indefinite.complete (es ++ 0 :: 0 :: rest)
          have hsplit : (0x80 :: (es ++ [0, 0])) ++ rest =
              [0x80] ++ (es ++ 0 :: 0 :: rest) := by
            simp only [List.cons_append, List.append_assoc, List.nil_append]
          rw [hsplit, berSkipLength, hfetch, Outcome.bind_ok, if_neg hneg, List.drop_left,
            skipElements_append (P := Body _) (fun c x hx => ih hx) heoc hes]
          · simp only [List.length_cons, List.length_append, List.length_nil]
            congr 1
            omega
          · simp only [List.length_append, List.length_cons, List.length_nil]
            omega
        · intro p q hq hpq
          cases p with
          | nil => rfl
          | cons o p =>
              rw [List.cons_append, List.cons.injEq] at hpq
              have hfetch := reads_indefinite.complete p
              rw [List.singleton_append] at hfetch
              rw [hpq.1, berSkipLength, hfetch, Outcome.bind_ok, if_neg hneg, List.length_singleton,
                List.drop_one, List.tail_cons]
              apply skipElements_cut (P := Body _) (fun c x hx => ih hx) rfl hes _ hq hpq.2
              rw [List.length_cons]
              omega

/-! ### Bounds -/

theorem skipElements_bounds {n : ℕ} {data : List UInt8}
    (hinner : ∀ c x m, inner c x = .ok () m → 1 ≤ m ∧ m ≤ x.length)
    (h : skipElements inner fuel skip data = .ok () n) :
    skip + 2 ≤ n ∧ n ≤ skip + data.length := by
  induction fuel generalizing skip data with
  | zero => cases h
  | succ fuel ih =>
      rw [skipElements] at h
      obtain ⟨tag, tl, hfetch, h⟩ := Outcome.bind_eq_ok h
      obtain ⟨_, ll, hskip, h⟩ := Outcome.bind_eq_ok h
      have htl := fetchTag_bounds hfetch
      have hll := hinner _ _ _ hskip
      rw [List.length_drop] at hll
      split_ifs at h
      · cases h
        omega
      · have := ih h
        rw [List.length_drop] at this
        omega

theorem skipLength_bounds {n : ℕ} {data : List UInt8}
    (h : berSkipLength stack constructed data = .ok () n) : 1 ≤ n ∧ n ≤ data.length := by
  induction stack generalizing constructed data n with
  | zero => cases h
  | succ stack ih =>
      rw [berSkipLength] at h
      obtain ⟨vlen, ll, hfetch, h⟩ := Outcome.bind_eq_ok h
      obtain ⟨-, hlo, hhi⟩ := fetchLength_bounds hfetch
      split_ifs at h
      · cases h
        omega
      · have := skipElements_bounds (fun c x m hm => ih hm) h
        rw [List.length_drop] at this
        omega

theorem skipElements_ne_hang {data : List UInt8} (hinner : ∀ c, Returns (inner c))
    (hfuel : data.length < fuel) : skipElements inner fuel skip data ≠ .hang := by
  induction fuel generalizing skip data with
  | zero => omega
  | succ fuel ih =>
      rw [skipElements]
      intro h
      obtain h | ⟨tag, tl, hfetch, h⟩ := Outcome.bind_eq_hang h
      · exact returns_fetchTag _ h
      · obtain h | ⟨-, ll, -, h⟩ := Outcome.bind_eq_hang h
        · exact hinner _ _ h
        · have htl := fetchTag_bounds hfetch
          split_ifs at h
          refine ih ?_ h
          rw [List.length_drop]
          omega

/-- **`ber_skip_length()` comes back from every input.** -/
theorem returns_skipLength (stack : ℕ) (constructed : Bool) :
    Returns (berSkipLength stack constructed) := by
  induction stack generalizing constructed with
  | zero =>
      intro data h
      cases h
  | succ stack ih =>
      intro data h
      rw [berSkipLength] at h
      obtain h | ⟨vlen, ll, hfetch, h⟩ := Outcome.bind_eq_hang h
      · exact returns_fetchLength _ _ h
      · split_ifs at h
        refine skipElements_ne_hang ih ?_ h
        rw [List.length_drop]
        omega

end skipping

end Remsim.Ber
