import Mathlib

/-! # Names of alternatives and enumeration values (`asn1c_helpers.c`)

Log messages name the alternative of a CHOICE by `asn_choice_name()` and a value of an ENUMERATED
by `asn_enum_name()`.  Both index a table that the ASN.1 compiler wrote, with a number that came
from the network, so a lookup also has the outcome that it reads outside of its table.

The presence index of a CHOICE is read from the structure as it stands in memory, on a machine
with the least significant octet first and a signed `char`.  `choiceDecodeBer` is what
`CHOICE_decode_ber()` leaves there for one complete element: bsearch() in the map of tags, and a
zeroed structure for an alternative that only a later version of the specification knows. -/

namespace Remsim.Asn

/-! ### Numbers in memory -/

/-- The octets of an object, by their offset. -/
abbrev Octets := ℕ → UInt8

/-- The unsigned number in the octets at an address. -/
def load (mem : Octets) (a : ℕ) : ℕ → ℕ
  | 0 => 0
  | size + 1 => (mem a).toNat + 256 * load mem (a + 1) size

def store (mem : Octets) (a : ℕ) : ℕ → ℕ → Octets
  | 0, _ => mem
  | size + 1, v => Function.update (store mem (a + 1) size (v / 256)) a (.ofNat (v % 256))

section memory

variable {mem mem' : Octets}

theorem load_congr {a size : ℕ} (h : ∀ i, a ≤ i → mem i = mem' i) :
    load mem a size = load mem' a size := by
  induction size generalizing a with
  | zero => rfl
  | succ size ih =>
      have hrest : load mem (a + 1) size = load mem' (a + 1) size := by
        apply ih
        intro i hi
        exact h i (by omega)
      rw [load, load, hrest, h a le_rfl]

theorem load_store (mem : Octets) (a size v : ℕ) :
    load (store mem a size v) a size = v % 256 ^ size := by
  induction size generalizing a v with
  | zero => rw [load, pow_zero, Nat.mod_one]
  | succ size ih =>
      have hrest : load (store mem a (size + 1) v) (a + 1) size =
          load (store mem (a + 1) size (v / 256)) (a + 1) size := by
        apply load_congr
        intro i hi
        exact Function.update_of_ne (by omega) _ _
      have hfirst : (store mem a (size + 1) v a).toNat = v % 256 := by
        rw [store, Function.update_self, UInt8.toNat_ofNat']
        omega
      rw [load, hrest, hfirst, ih, pow_succ', Nat.mod_mul]

theorem load_zero (a size : ℕ) : load (fun _ => 0) a size = 0 := by
  induction size generalizing a with
  | zero => rfl
  | succ size ih => rw [load, ih]; rfl

end memory

/-- A signed number, in two's complement. -/
def loadSigned (mem : Octets) (a size : ℕ) : ℤ := Int.bmod (load mem a size) (2 ^ (8 * size))

def storeSigned (mem : Octets) (a size : ℕ) (v : ℤ) : Octets :=
  store mem a size (v % 2 ^ (8 * size)).toNat

theorem loadSigned_storeSigned (mem : Octets) (a size : ℕ) {v : ℤ}
    (hlo : -(2 ^ (8 * size) : ℤ) ≤ 2 * v) (hhi : 2 * v < 2 ^ (8 * size)) :
    loadSigned (storeSigned mem a size v) a size = v := by
  have hpow : 256 ^ size = 2 ^ (8 * size) := by rw [pow_mul]; norm_num
  have hpos : (0 : ℤ) < 2 ^ (8 * size) := by positivity
  have hcast : (((v % 2 ^ (8 * size)).toNat % 256 ^ size : ℕ) : ℤ) = v % 2 ^ (8 * size) := by
    rw [hpow, Int.natCast_mod, Int.toNat_of_nonneg (Int.emod_nonneg _ hpos.ne')]
    push_cast
    exact Int.emod_emod_of_dvd _ dvd_rfl
  have hbmod := Int.emod_bmod v (2 ^ (8 * size))
  push_cast at hbmod
  rw [loadSigned, storeSigned, load_store, hcast, hbmod]
  apply Int.bmod_eq_of_le_mul_two
  · push_cast; omega
  · push_cast; omega

/-! ### Alternatives of a CHOICE -/

/-- The sizes of `int`, `short` and `char`. -/
def IsPresSize (presSize : ℕ) : Prop := presSize = 4 ∨ presSize = 2 ∨ presSize = 1

instance (presSize : ℕ) : Decidable (IsPresSize presSize) :=
  inferInstanceAs (Decidable (_ ∨ _ ∨ _))

/-- `_fetch_present_idx()`; of another size it passes back a safe value. -/
def fetchPresentIdx (structPtr : Octets) (presOffset presSize : ℕ) : ℤ :=
  if IsPresSize presSize then loadSigned structPtr presOffset presSize else 0

/-- `_set_present_idx()`. -/
def setPresentIdx (structPtr : Octets) (presOffset presSize : ℕ) (present : ℤ) : Octets :=
  if IsPresSize presSize then storeSigned structPtr presOffset presSize present else structPtr

/-- **Every presence index that its field can hold is read back as it was set.** -/
theorem fetchPresentIdx_setPresentIdx (mem : Octets) (a : ℕ) {size : ℕ}
    (hsize : IsPresSize size) {p : ℤ}
    (hlo : -(2 ^ (8 * size) : ℤ) ≤ 2 * p) (hhi : 2 * p < 2 ^ (8 * size)) :
    fetchPresentIdx (setPresentIdx mem a size p) a size = p := by
  rw [fetchPresentIdx, if_pos hsize, setPresentIdx, if_pos hsize,
    loadSigned_storeSigned mem a size hlo hhi]

theorem fetchPresentIdx_zero (a size : ℕ) : fetchPresentIdx (fun _ => 0) a size = 0 := by
  rw [fetchPresentIdx, loadSigned, load_zero, Nat.cast_zero, Int.zero_bmod, ite_self]

/-- What reading a table of names at an index gives. -/
inductive Lookup where
  | name (s : String)
  | outside (i : ℤ)
deriving DecidableEq, Repr

/-- `table[i]`. -/
def index (table : List String) (i : ℤ) : Lookup :=
  if i < 0 then .outside i
  else match table[i.toNat]? with
    | some s => .name s
    | none => .outside i

/-- The part of an `asn_TYPE_descriptor_t` of a CHOICE and of its `asn_CHOICE_specifics_t` that is
used here.  Element names are identifiers of the specification. -/
structure ChoiceType where
  elements : List String
  presOffset : ℕ
  presSize : ℕ
  /-- The numbers of the context-specific tags, sorted, each with the position of its element. -/
  tag2el : List (ℕ × ℕ)
  extStart : ℤ
  named : "<invalid>" ∉ elements

/-- `asn_choice_name()`. -/
def asnChoiceName (td : ChoiceType) (sptr : Octets) : Lookup :=
  let present := fetchPresentIdx sptr td.presOffset td.presSize
  if present < 0 ∨ (td.elements.length : ℤ) ≤ present then .name "<invalid>"
  else index td.elements (present - 1)

/-- Presence indices are numbered from one; zero says that nothing is present. -/
def ChoiceType.nameOf (td : ChoiceType) (p : ℤ) : String :=
  if 1 ≤ p then (td.elements[(p - 1).toNat]?).getD "<invalid>" else "<invalid>"

section choice

variable (td : ChoiceType)

theorem index_of_lt {table : List String} {i : ℤ} (h : 0 ≤ i) (h' : i < table.length) :
    ∃ s, table[i.toNat]? = some s ∧ index table i = .name s := by
  have hlt : i.toNat < table.length := by omega
  refine ⟨table[i.toNat], List.getElem?_eq_getElem hlt, ?_⟩
  rw [index, if_neg (by omega), List.getElem?_eq_getElem hlt]

theorem ChoiceType.nameOf_of_mem {p : ℤ} (h : 1 ≤ p) (h' : p ≤ td.elements.length) :
    td.nameOf p ≠ "<invalid>" := by
  have hlt : (p - 1).toNat < td.elements.length := by omega
  rw [nameOf, if_pos h, List.getElem?_eq_getElem hlt, Option.getD_some]
  intro hinv
  exact td.named (hinv ▸ List.getElem_mem hlt)

theorem ChoiceType.nameOf_of_not_mem {p : ℤ} (h : p < 1 ∨ (td.elements.length : ℤ) < p) :
    td.nameOf p = "<invalid>" := by
  rw [nameOf]
  split_ifs with hp
  · rw [List.getElem?_eq_none (by omega)]
    rfl
  · rfl

theorem asnChoiceName_cases (sptr : Octets) :
    let p := fetchPresentIdx sptr td.presOffset td.presSize
    let n := (td.elements.length : ℤ)
    (p < 0 ∨ n ≤ p) ∧ asnChoiceName td sptr = .name "<invalid>" ∨
    (p = 0 ∧ 0 < n) ∧ asnChoiceName td sptr = .outside (-1) ∨
    (1 ≤ p ∧ p < n) ∧ asnChoiceName td sptr = .name (td.nameOf p) := by
  intro p n
  by_cases hout : p < 0 ∨ n ≤ p
  · exact .inl ⟨hout, if_pos hout⟩
  · have hname : asnChoiceName td sptr = index td.elements (p - 1) := if_neg hout
    by_cases hzero : p = 0
    · refine .inr (.inl ⟨⟨hzero, by omega⟩, ?_⟩)
      rw [hname, hzero]
      rfl
    · have hin : 0 ≤ p - 1 ∧ p - 1 < td.elements.length := by omega
      obtain ⟨s, hs, hidx⟩ := index_of_lt hin.1 hin.2
      refine .inr (.inr ⟨by omega, ?_⟩)
      rw [hname, hidx, ChoiceType.nameOf, if_pos (by omega), hs]
      rfl

variable {td}

theorem asnChoiceName_right (sptr : Octets) :
    let p := fetchPresentIdx sptr td.presOffset td.presSize
    asnChoiceName td sptr = .name (td.nameOf p) ↔
      td.elements = [] ∨ p ≠ 0 ∧ p ≠ td.elements.length := by
  intro p
  have hempty : td.elements = [] ↔ (td.elements.length : ℤ) = 0 := by
    rw [Int.natCast_eq_zero, List.length_eq_zero_iff]
  rw [hempty]
  rcases asnChoiceName_cases td sptr with ⟨hp, hname⟩ | ⟨hp, hname⟩ | ⟨hp, hname⟩
  · rw [hname, Lookup.name.injEq]
    by_cases hlast : 1 ≤ p ∧ p = td.elements.length
    · refine iff_of_false (fun h => ?_) (by omega)
      exact td.nameOf_of_mem hlast.1 hlast.2.le h.symm
    · refine iff_of_true (td.nameOf_of_not_mem (by omega)).symm (by omega)
  · rw [hname]
    exact iff_of_false Lookup.noConfusion (by omega)
  · exact iff_of_true hname (by omega)

/-- An element in front of the table is read when nothing is present. -/
theorem asnChoiceName_outside (sptr : Octets) :
    (∃ i, asnChoiceName td sptr = .outside i) ↔
      fetchPresentIdx sptr td.presOffset td.presSize = 0 ∧ td.elements ≠ [] := by
  have hempty : td.elements = [] ↔ (td.elements.length : ℤ) = 0 := by
    rw [Int.natCast_eq_zero, List.length_eq_zero_iff]
  rw [ne_eq, hempty]
  rcases asnChoiceName_cases td sptr with ⟨hp, hname⟩ | ⟨hp, hname⟩ | ⟨hp, hname⟩
  · refine iff_of_false (fun ⟨i, hi⟩ => ?_) (by omega)
    rw [hname] at hi
    cases hi
  · exact iff_of_true ⟨-1, hname⟩ (by omega)
  · refine iff_of_false (fun ⟨i, hi⟩ => ?_) (by omega)
    rw [hname] at hi
    cases hi

end choice

/-- What `CHOICE_decode_ber()` leaves in the zeroed structure for one complete element with a tag,
as far as the presence index goes; an unknown tag is skipped where extensions are allowed. -/
def choiceDecodeBer (td : ChoiceType) (tag : ℕ) : Option Octets :=
  match td.tag2el.find? (·.1 = tag) with
  | some t2m => some (setPresentIdx (fun _ => 0) td.presOffset td.presSize (t2m.2 + 1))
  | none => if td.extStart = -1 then none else some fun _ => 0

section decoded

variable {td : ChoiceType} (hsize : IsPresSize td.presSize)
  (hcount : 2 * (td.elements.length : ℤ) < 2 ^ (8 * td.presSize))
  (htag : ∀ t2m ∈ td.tag2el, t2m.2 < td.elements.length) {tag : ℕ} {mem : Octets}
  (h : choiceDecodeBer td tag = some mem)
include hsize hcount htag h

theorem fetchPresentIdx_choiceDecodeBer :
    fetchPresentIdx mem td.presOffset td.presSize =
      ((td.tag2el.find? (·.1 = tag)).map fun t2m => (t2m.2 : ℤ) + 1).getD 0 := by
  unfold choiceDecodeBer at h
  cases hfind : td.tag2el.find? (·.1 = tag) with
  | none =>
      simp only [hfind] at h
      split_ifs at h
      cases h
      exact fetchPresentIdx_zero _ _
  | some t2m =>
      simp only [hfind] at h
      cases h
      have hlt := htag t2m (List.mem_of_find?_eq_some hfind)
      exact fetchPresentIdx_setPresentIdx _ td.presOffset hsize (by omega) (by omega)

/-- **A decoded CHOICE has its name when its tag is known and not that of the last alternative.** -/
theorem asnChoiceName_choiceDecodeBer (hne : td.elements ≠ []) :
    asnChoiceName td mem = .name (td.nameOf (fetchPresentIdx mem td.presOffset td.presSize)) ↔
      ∃ t2m ∈ td.tag2el.find? (·.1 = tag), t2m.2 + 1 ≠ td.elements.length := by
  have hright : asnChoiceName td mem =
      .name (td.nameOf (fetchPresentIdx mem td.presOffset td.presSize)) ↔ _ :=
    asnChoiceName_right mem
  rw [hright, fetchPresentIdx_choiceDecodeBer hsize hcount htag h, or_iff_right hne]
  cases td.tag2el.find? (·.1 = tag) with
  | none =>
      refine iff_of_false (fun hp => hp.1 rfl) ?_
      rintro ⟨_, hmem, -⟩
      exact Option.not_mem_none _ hmem
  | some t2m =>
      simp only [Option.map_some, Option.getD_some, Option.mem_some_iff, exists_eq_left']
      omega

end decoded

/-! ### Values of an ENUMERATED -/

/-- `asn_INTEGER_enum_map_t`. -/
structure EnumMap where
  natValue : ℤ
  enumName : String
deriving DecidableEq, Repr

/-- The map of the `asn_INTEGER_specifics_t` of an ENUMERATED, sorted by value; the names are
identifiers of the specification. -/
structure EnumType where
  value2enum : List EnumMap
  sorted : value2enum.Pairwise (·.natValue < ·.natValue)
  distinct : value2enum.Pairwise (·.enumName ≠ ·.enumName)
  named : ∀ el ∈ value2enum, el.enumName ≠ "<invalid>"

/-- `asn_enum_name()`. -/
def asnEnumName (ispec : EnumType) (data : ℤ) : Lookup :=
  if data < 0 ∨ (ispec.value2enum.length : ℤ) ≤ data then .name "<invalid>"
  else index (ispec.value2enum.map EnumMap.enumName) data

/-- `INTEGER_map_value2enum()`. -/
def integerMapValue2enum (specs : EnumType) (value : ℤ) : Option EnumMap :=
  specs.value2enum.find? (·.natValue = value)

def EnumType.nameOf (specs : EnumType) (v : ℤ) : String :=
  ((integerMapValue2enum specs v).map EnumMap.enumName).getD "<invalid>"

/-- The entry of a value, and no other one, has the value for its position. -/
def EnumType.InPlace (specs : EnumType) (v : ℤ) : Prop :=
  ∀ (i : ℕ) el, specs.value2enum[i]? = some el → (el.natValue = v ↔ (i : ℤ) = v)

section enumerated

variable {specs : EnumType}

theorem eq_of_pairwise_ne {α β : Type*} {f : α → β} {l : List α}
    (h : l.Pairwise fun a b => f a ≠ f b) {i j : ℕ} {a b : α} (ha : l[i]? = some a)
    (hb : l[j]? = some b) (heq : f a = f b) : i = j := by
  obtain ⟨hi, rfl⟩ := List.getElem?_eq_some_iff.mp ha
  obtain ⟨hj, rfl⟩ := List.getElem?_eq_some_iff.mp hb
  rw [List.pairwise_iff_getElem] at h
  rcases lt_trichotomy i j with hlt | heq' | hlt
  · exact absurd heq (h i j hi hj hlt)
  · exact heq'
  · exact absurd heq.symm (h j i hj hi hlt)

theorem EnumType.nameOf_of_getElem? {i : ℕ} {el : EnumMap} (h : specs.value2enum[i]? = some el) :
    specs.nameOf el.natValue = el.enumName := by
  have hdistinct : specs.value2enum.Pairwise fun a b => a.natValue ≠ b.natValue :=
    specs.sorted.imp ne_of_lt
  have hsome : ∃ el', integerMapValue2enum specs el.natValue = some el' := by
    rw [integerMapValue2enum, ← Option.isSome_iff_exists, List.find?_isSome]
    exact ⟨el, List.mem_of_getElem? h, decide_eq_true rfl⟩
  obtain ⟨el', hel'⟩ := hsome
  obtain ⟨j, hj⟩ := List.getElem?_of_mem (List.mem_of_find?_eq_some hel')
  have hvalue : el'.natValue = el.natValue := by
    have hfind := List.find?_some (p := fun a : EnumMap => a.natValue = el.natValue) hel'
    exact of_decide_eq_true hfind
  obtain rfl := eq_of_pairwise_ne hdistinct hj h hvalue
  rw [nameOf, hel', Option.some.inj (hj.symm.trans h)]
  rfl

theorem EnumType.nameOf_eq_invalid {v : ℤ} :
    specs.nameOf v = "<invalid>" ↔ ∀ el ∈ specs.value2enum, el.natValue ≠ v := by
  constructor
  · rintro h el hel rfl
    obtain ⟨i, hi⟩ := List.getElem?_of_mem hel
    rw [nameOf_of_getElem? hi] at h
    exact specs.named el hel h
  · intro h
    have hnone : integerMapValue2enum specs v = none :=
      List.find?_eq_none.mpr fun el hel => by simpa using h el hel
    rw [nameOf, hnone]
    rfl

theorem asnEnumName_cases (specs : EnumType) (v : ℤ) :
    (v < 0 ∨ (specs.value2enum.length : ℤ) ≤ v) ∧ asnEnumName specs v = .name "<invalid>" ∨
    ∃ (i : ℕ) (el : EnumMap), (i : ℤ) = v ∧ specs.value2enum[i]? = some el ∧
      asnEnumName specs v = .name el.enumName := by
  by_cases hout : v < 0 ∨ (specs.value2enum.length : ℤ) ≤ v
  · exact .inl ⟨hout, if_pos hout⟩
  · have hlt : v.toNat < specs.value2enum.length := by omega
    refine .inr ⟨v.toNat, specs.value2enum[v.toNat], by omega, List.getElem?_eq_getElem hlt, ?_⟩
    rw [asnEnumName, if_neg hout, index, if_neg (by omega), List.getElem?_map,
      List.getElem?_eq_getElem hlt]
    rfl

theorem asnEnumName_ne_outside (v i : ℤ) : asnEnumName specs v ≠ .outside i := by
  rcases asnEnumName_cases specs v with ⟨-, h⟩ | ⟨_, _, -, -, h⟩
  · rw [h]
    exact Lookup.noConfusion
  · rw [h]
    exact Lookup.noConfusion

theorem asnEnumName_right (v : ℤ) :
    asnEnumName specs v = .name (specs.nameOf v) ↔ specs.InPlace v := by
  have hdistinct : specs.value2enum.Pairwise fun a b => a.natValue ≠ b.natValue :=
    specs.sorted.imp ne_of_lt
  rcases asnEnumName_cases specs v with ⟨hout, hname⟩ | ⟨i, el, rfl, hel, hname⟩
  · rw [hname, Lookup.name.injEq, eq_comm, EnumType.nameOf_eq_invalid]
    constructor
    · intro h j el hel
      obtain ⟨hj, -⟩ := List.getElem?_eq_some_iff.mp hel
      exact iff_of_false (h el (List.mem_of_getElem? hel)) (by omega)
    · rintro h el hel rfl
      obtain ⟨j, hj⟩ := List.getElem?_of_mem hel
      obtain ⟨hj', -⟩ := List.getElem?_eq_some_iff.mp hj
      have := (h j el hj).mp rfl
      omega
  · rw [hname, Lookup.name.injEq]
    constructor
    · intro h
      have hvalue : el.natValue = i := by
        by_contra hne
        have hinv : specs.nameOf i ≠ "<invalid>" := h ▸ specs.named el (List.mem_of_getElem? hel)
        rw [ne_eq, EnumType.nameOf_eq_invalid] at hinv
        push Not at hinv
        obtain ⟨el', hmem, hel'⟩ := hinv
        obtain ⟨j, hj⟩ := List.getElem?_of_mem hmem
        rw [← hel', EnumType.nameOf_of_getElem? hj] at h
        obtain rfl := eq_of_pairwise_ne specs.distinct hel hj h
        exact hne (Option.some.inj (hel.symm.trans hj) ▸ hel')
      intro j el' hj
      constructor
      · intro hel'
        rw [eq_of_pairwise_ne hdistinct hj hel (hel'.trans hvalue.symm)]
      · intro hji
        obtain rfl : j = i := by exact_mod_cast hji
        rw [Option.some.inj (hj.symm.trans hel), hvalue]
    · intro h
      have hvalue := (h i el hel).mpr rfl
      rw [← hvalue, EnumType.nameOf_of_getElem? hel]

/-- **Every value of a table is named rightly exactly when its values are the positions.** -/
theorem asnEnumName_dense :
    (∀ v, asnEnumName specs v = .name (specs.nameOf v)) ↔
      ∀ (i : ℕ) el, specs.value2enum[i]? = some el → el.natValue = i := by
  constructor
  · intro h i el hel
    exact ((asnEnumName_right _).mp (h i) i el hel).mpr rfl
  · intro h v
    apply (asnEnumName_right v).mpr
    intro i el hel
    rw [h i el hel]

end enumerated

/-- **Name lookups**: a CHOICE is named rightly unless nothing or its last alternative is present,
a value of an ENUMERATED when it stands at its own position; only the first of these reads outside
of its table. -/
theorem names_right (td : ChoiceType) (sptr : Octets) (specs : EnumType) (v : ℤ) :
    let p := fetchPresentIdx sptr td.presOffset td.presSize
    (asnChoiceName td sptr = .name (td.nameOf p) ↔
      td.elements = [] ∨ p ≠ 0 ∧ p ≠ td.elements.length) ∧
    ((∃ i, asnChoiceName td sptr = .outside i) ↔ p = 0 ∧ td.elements ≠ []) ∧
    (asnEnumName specs v = .name (specs.nameOf v) ↔ specs.InPlace v) ∧
    ∀ i, asnEnumName specs v ≠ .outside i :=
  ⟨asnChoiceName_right sptr, asnChoiceName_outside sptr, asnEnumName_right v,
    asnEnumName_ne_outside v⟩

/-! ### The tables of RSPRO -/

/-- `asn_DEF_RsproPDUchoice`. -/
def rsproPDUchoice : ChoiceType where
  elements := ["connectBankReq", "connectBankRes", "connectClientReq", "connectClientRes",
    "createMappingReq", "createMappingRes", "removeMappingReq", "removeMappingRes",
    "configClientIdReq", "configClientIdRes", "configClientBankReq", "configClientBankRes",
    "errorInd", "resetStateReq", "resetStateRes", "setAtrReq", "setAtrRes", "tpduModemToCard",
    "tpduCardToModem", "clientSlotStatusInd", "bankSlotStatusInd"]
  presOffset := 0
  presSize := 4
  tag2el := [(0, 0), (1, 1), (2, 2), (3, 3), (4, 4), (5, 5), (6, 6), (7, 7), (8, 8), (9, 9),
    (10, 15), (11, 16), (12, 17), (13, 18), (14, 19), (15, 20), (16, 12), (17, 10), (18, 11),
    (19, 13), (20, 14)]
  extStart := 21
  named := by decide

/-- `rspro_msgt_name()` of a message. -/
def rsproMsgtName (msg : Octets) : Lookup := asnChoiceName rsproPDUchoice msg

/-- `asn_DEF_ResultCode`. -/
def resultCode : EnumType where
  value2enum := [⟨0, "ok"⟩, ⟨1, "illegalClientId"⟩, ⟨2, "illegalBankId"⟩, ⟨3, "illegalSlotId"⟩,
    ⟨4, "unsupportedProtocolVersion"⟩, ⟨5, "unknownSlotmap"⟩, ⟨6, "identityInUse"⟩,
    ⟨100, "cardNotPresent"⟩, ⟨101, "cardUnresponsive"⟩, ⟨102, "cardTransmissionError"⟩]
  sorted := by decide
  distinct := by decide
  named := by decide

/-- A received message has its name unless it is a `bankSlotStatusInd`, which has tag 15, or from a
later version of the specification. -/
theorem rsproMsgtName_received {tag : ℕ} {msg : Octets}
    (h : choiceDecodeBer rsproPDUchoice tag = some msg) :
    rsproMsgtName msg = .name (rsproPDUchoice.nameOf (fetchPresentIdx msg 0 4)) ↔
      tag < 15 ∨ 15 < tag ∧ tag ≤ 20 := by
  have hright : rsproMsgtName msg = .name (rsproPDUchoice.nameOf (fetchPresentIdx msg 0 4)) ↔
      _ := asnChoiceName_choiceDecodeBer (.inl rfl) (by decide) (by decide) h (List.cons_ne_nil _ _)
  rw [hright]
  constructor
  · rintro ⟨t2m, hmem, hlast⟩
    have htags : ∀ t2m ∈ rsproPDUchoice.tag2el,
        t2m.2 + 1 ≠ 21 → t2m.1 < 15 ∨ 15 < t2m.1 ∧ t2m.1 ≤ 20 := by decide
    have htag : t2m.1 = tag := by
      have hfind := List.find?_some (p := fun a : ℕ × ℕ => a.1 = tag) hmem
      exact of_decide_eq_true hfind
    rw [← htag]
    exact htags t2m (List.mem_of_find?_eq_some hmem) hlast
  · intro htag
    have hknown : ∀ t ≤ 20, t ≠ 15 →
        ∃ t2m ∈ rsproPDUchoice.tag2el.find? (·.1 = t), t2m.2 + 1 ≠ 21 := by decide
    exact hknown tag (by omega) (by omega)

/-- A received `bankSlotStatusInd` is called invalid, a message of a later version makes the lookup
read in front of the table, and the result `cardNotPresent` is called invalid. -/
theorem names_wrong :
    (¬∀ (td : ChoiceType) sptr, asnChoiceName td sptr =
      .name (td.nameOf (fetchPresentIdx sptr td.presOffset td.presSize))) ∧
    (¬∀ (td : ChoiceType) sptr i, asnChoiceName td sptr ≠ .outside i) ∧
    ¬∀ (specs : EnumType) v, asnEnumName specs v = .name (specs.nameOf v) := by
  refine ⟨fun h => ?_, fun h => ?_, fun h => ?_⟩
  · exact absurd (h rsproPDUchoice (setPresentIdx (fun _ => 0) 0 4 21)) (by decide +kernel)
  · exact h rsproPDUchoice (fun _ => 0) (-1) (by decide +kernel)
  · exact absurd (h resultCode 100) (by decide +kernel)

end Remsim.Asn
