import Remsim.CString

/-! # Component identities (`rspro_util.c`)

The identity of a component is kept with its strings in arrays of 33 octets (`AppCompId`) and sent
with octet strings of any length, five of them optional (`ComponentIdentity`).  One function writes
the strings and another one reads them, each field by field; `rspro_comp_id_retrieve()` leaves out
`hwModel`.

* `survives_iff`: every string is retrieved as it was transmitted, the model of the hardware
  excepted. -/

namespace Remsim

open CString

/-- `struct app_comp_id`. -/
structure AppCompId where
  type : UInt32
  name : List UInt8
  software : List UInt8
  swVersion : List UInt8
  hwManufacturer : List UInt8
  hwModel : List UInt8
  hwSerialNr : List UInt8
  hwVersion : List UInt8
  fwVersion : List UInt8
deriving DecidableEq, Repr

/-- `ComponentIdentity_t`. -/
structure ComponentIdentity where
  type : ℤ
  name : List UInt8
  software : List UInt8
  swVersion : List UInt8
  hwManufacturer : Option (List UInt8)
  hwModel : Option (List UInt8)
  hwSerialNr : Option (List UInt8)
  hwVersion : Option (List UInt8)
  fwVersion : Option (List UInt8)
deriving DecidableEq, Repr

/-- `MAX_NAME_LEN`. -/
def maxNameLen : ℕ := 32

/-- `OCTET_STRING_new_fromBuf()`, called if the string is not empty. -/
def newFromBuf (buf : List UInt8) : Option (List UInt8) :=
  if (cstr buf).length ≠ 0 then some (cstr buf) else none

/-- `fill_comp_id()`. -/
def fillCompId (x : AppCompId) : ComponentIdentity where
  type := x.type.toNat
  name := cstr x.name
  software := cstr x.software
  swVersion := cstr x.swVersion
  hwManufacturer := newFromBuf x.hwManufacturer
  hwModel := newFromBuf x.hwModel
  hwSerialNr := newFromBuf x.hwSerialNr
  hwVersion := newFromBuf x.hwVersion
  fwVersion := newFromBuf x.fwVersion

/-- `string_fromOCTET_STRING()` with an array for `out`. -/
def stringFromOctetString (out : List UInt8) : Option (List UInt8) → List UInt8
  | none => out.set 0 0
  | some s =>
      let n := if out.length < s.length then out.length else s.length
      let copied := s.take n ++ out.drop n
      if s.length < out.length then copied.set s.length 0 else copied.set (out.length - 1) 0

/-- An array of `memset()` to zero. -/
def zeroed : List UInt8 := List.replicate (maxNameLen + 1) 0

/-- `rspro_comp_id_retrieve()`. -/
def rsproCompIdRetrieve (c : ComponentIdentity) : AppCompId where
  type := .ofInt c.type
  name := stringFromOctetString zeroed (some c.name)
  software := stringFromOctetString zeroed (some c.software)
  swVersion := stringFromOctetString zeroed (some c.swVersion)
  hwManufacturer := stringFromOctetString zeroed c.hwManufacturer
  hwModel := zeroed
  hwSerialNr := stringFromOctetString zeroed c.hwSerialNr
  hwVersion := stringFromOctetString zeroed c.hwVersion
  fwVersion := stringFromOctetString zeroed c.fwVersion

/-! ### The fields as a whole -/

/-- The arrays. -/
def AppCompId.arrays (x : AppCompId) : List (List UInt8) :=
  [x.name, x.software, x.swVersion, x.hwManufacturer, x.hwModel, x.hwSerialNr, x.hwVersion,
    x.fwVersion]

/-- The octet strings in the same order; one that is absent counts as empty. -/
def ComponentIdentity.strings (c : ComponentIdentity) : List (List UInt8) :=
  [c.name, c.software, c.swVersion, c.hwManufacturer.getD [], c.hwModel.getD [],
    c.hwSerialNr.getD [], c.hwVersion.getD [], c.fwVersion.getD []]

/-- The arrays have their length and hold strings that are terminated. -/
def AppCompId.Terminated (x : AppCompId) : Prop :=
  ∀ a ∈ x.arrays, a.length = maxNameLen + 1 ∧ 0 ∈ a

/-- Two identities agree in all nine fields. -/
def AppCompId.Same (x y : AppCompId) : Prop :=
  x.type = y.type ∧ x.arrays.map cstr = y.arrays.map cstr

/-- An array holds as much of an octet string as fits, and a NUL after it. -/
def Carries (a s : List UInt8) : Prop := ∃ t, a = s.take maxNameLen ++ 0 :: t

/-- Every octet string is retrieved. -/
def Retrieved (c : ComponentIdentity) : Prop :=
  List.Forall₂ Carries (rsproCompIdRetrieve c).arrays c.strings

/-! ### One string -/

section strings

variable {a s : List UInt8}

theorem carries_some (s : List UInt8) : Carries (stringFromOctetString zeroed (some s)) s := by
  have hz : zeroed.length = maxNameLen + 1 := List.length_replicate
  simp only [stringFromOctetString, hz]
  by_cases hs : s.length ≤ maxNameLen
  · rw [if_pos (by omega), if_neg (by omega), List.take_length, List.set_append_right _ _ le_rfl,
      Nat.sub_self]
    have hd : zeroed.drop s.length = 0 :: List.replicate (maxNameLen - s.length) 0 := by
      rw [zeroed, List.drop_replicate, ← List.replicate_succ]
      congr 1
      omega
    exact ⟨List.replicate (maxNameLen - s.length) 0, by rw [hd, List.take_of_length_le hs]; rfl⟩
  · rw [if_neg (by omega), Nat.add_sub_cancel]
    refine ⟨[], ?_⟩
    have hn : (if maxNameLen + 1 < s.length then maxNameLen + 1 else s.length) =
        maxNameLen + 1 := by
      split_ifs <;> omega
    rw [hn, List.drop_of_length_le (by rw [hz]), List.append_nil]
    have hlt : maxNameLen < s.length := by omega
    have hget : s.take (maxNameLen + 1) = s.take maxNameLen ++ [s[maxNameLen]] :=
      (List.take_append_getElem hlt).symm
    rw [hget, List.set_append_right _ _ (by rw [List.length_take]; omega), List.length_take,
      min_eq_left (by omega), Nat.sub_self]
    rfl

theorem carries_getD (s : Option (List UInt8)) :
    Carries (stringFromOctetString zeroed s) (s.getD []) := by
  cases s with
  | none => exact ⟨List.replicate maxNameLen 0, rfl⟩
  | some s => exact carries_some s

theorem terminated_octetString (s : Option (List UInt8)) :
    (stringFromOctetString zeroed s).length = maxNameLen + 1 ∧
      0 ∈ stringFromOctetString zeroed s := by
  have hz : zeroed.length = maxNameLen + 1 := List.length_replicate
  constructor
  · cases s with
    | none => rw [stringFromOctetString, List.length_set, hz]
    | some s =>
        simp only [stringFromOctetString, hz]
        split_ifs <;>
          simp only [List.length_set, List.length_append, List.length_take, List.length_drop,
            hz] <;>
          omega
  · obtain ⟨t, ht⟩ := carries_getD s
    rw [ht]
    exact List.mem_append_right _ List.mem_cons_self

theorem terminated_zeroed : zeroed.length = maxNameLen + 1 ∧ 0 ∈ zeroed :=
  terminated_octetString none

theorem Carries.cstr_eq (h : Carries a s) (hs : s.length ≤ maxNameLen) (h0 : 0 ∉ s) :
    cstr a = s := by
  obtain ⟨t, rfl⟩ := h
  rw [List.take_of_length_le hs, cstr_append_zero h0]

theorem getD_newFromBuf (a : List UInt8) : (newFromBuf a).getD [] = cstr a := by
  unfold newFromBuf
  split_ifs with h
  · rfl
  · exact (List.length_eq_zero_iff.mp (not_not.mp h)).symm

theorem carries_zeroed : Carries zeroed s ↔ ∀ b ∈ s.take maxNameLen, b = 0 := by
  constructor
  · rintro ⟨t, ht⟩ b hb
    have hmem : b ∈ zeroed := by
      rw [ht]
      exact List.mem_append_left _ hb
    exact (List.mem_replicate.mp hmem).2
  · intro h
    have hle : (s.take maxNameLen).length ≤ maxNameLen := List.length_take_le _ _
    refine ⟨List.replicate (maxNameLen - (s.take maxNameLen).length) 0, ?_⟩
    rw [List.eq_replicate_length.mpr h, List.length_replicate, ← List.replicate_succ,
      List.replicate_append_replicate, zeroed]
    congr 1
    omega

end strings

/-! ### The identity -/

variable {x : AppCompId} {c : ComponentIdentity}

theorem retrieved_iff : Retrieved c ↔ ∀ b ∈ (c.hwModel.getD []).take maxNameLen, b = 0 := by
  unfold Retrieved AppCompId.arrays ComponentIdentity.strings rsproCompIdRetrieve
  simp only [List.forall₂_cons, List.forall₂_nil_left_iff, carries_some, carries_getD,
    carries_zeroed, true_and, and_true]

theorem same_iff (h : x.Terminated) :
    (rsproCompIdRetrieve (fillCompId x)).Same x ↔ cstr x.hwModel = [] := by
  have hfits : ∀ a ∈ x.arrays, (cstr a).length ≤ maxNameLen ∧ 0 ∉ cstr a := by
    intro a ha
    have hlt := length_cstr_lt (h a ha).2
    rw [(h a ha).1] at hlt
    exact ⟨by omega, zero_notMem_cstr a⟩
  have hget : ∀ a ∈ x.arrays, cstr (stringFromOctetString zeroed (newFromBuf a)) = cstr a := by
    intro a ha
    have := carries_getD (newFromBuf a)
    rw [getD_newFromBuf] at this
    exact this.cstr_eq (hfits a ha).1 (hfits a ha).2
  have hsome : ∀ a ∈ x.arrays, cstr (stringFromOctetString zeroed (some (cstr a))) = cstr a :=
    fun a ha => (carries_some _).cstr_eq (hfits a ha).1 (hfits a ha).2
  simp only [AppCompId.arrays, List.forall_mem_cons, List.not_mem_nil, false_imp_iff,
    implies_true, and_true] at hget hsome
  obtain ⟨h₁, h₂, h₃, -⟩ := hsome
  obtain ⟨-, -, -, h₄, -, h₆, h₇, h₈⟩ := hget
  have htype : UInt32.ofInt (x.type.toNat : ℤ) = x.type := by
    have h32 : ((x.type.toNat : ℤ) % 2 ^ 32).toNat = x.type.toNat := by
      have := x.type.toNat_lt
      omega
    rw [UInt32.ofInt, h32, UInt32.ofNat_toNat]
  have hzero : cstr zeroed = [] := rfl
  simp only [AppCompId.Same, rsproCompIdRetrieve, fillCompId, htype, AppCompId.arrays,
    List.map_cons, List.map_nil, h₁, h₂, h₃, h₄, h₆, h₇, h₈, hzero, true_and, List.cons.injEq,
    and_true]
  exact eq_comm

/-- **Every identity survives the protocol, except for the model of the hardware**: an identity is
retrieved as it was filled in exactly when its model is empty, and every string of a
`ComponentIdentity` is retrieved up to the length of its array exactly when its model is absent or
has only zero octets there. -/
theorem survives_iff (x : AppCompId) (h : x.Terminated) (c : ComponentIdentity) :
    ((rsproCompIdRetrieve (fillCompId x)).Same x ↔ cstr x.hwModel = []) ∧
      (Retrieved c ↔ ∀ b ∈ (c.hwModel.getD []).take maxNameLen, b = 0) :=
  ⟨same_iff h, retrieved_iff⟩

/-- The identity `bankd` of a machine whose hardware model is `model`. -/
def bankdIdentity (model : List UInt8) : AppCompId where
  type := 2
  name := stringFromOctetString zeroed (some (ascii "bankd"))
  software := stringFromOctetString zeroed (some (ascii "remsim"))
  swVersion := stringFromOctetString zeroed (some (ascii "1"))
  hwManufacturer := zeroed
  hwModel := stringFromOctetString zeroed (some model)
  hwSerialNr := zeroed
  hwVersion := zeroed
  fwVersion := zeroed

theorem bankdIdentity_terminated (model : List UInt8) : (bankdIdentity model).Terminated := by
  simp only [AppCompId.Terminated, AppCompId.arrays, bankdIdentity, List.forall_mem_cons,
    terminated_octetString, terminated_zeroed, List.not_mem_nil, false_imp_iff, implies_true,
    and_true]

theorem noModel_survives :
    (rsproCompIdRetrieve (fillCompId (bankdIdentity []))).Same (bankdIdentity []) ∧
      Retrieved (fillCompId (bankdIdentity [])) := by
  have h := survives_iff (bankdIdentity []) (bankdIdentity_terminated _)
    (fillCompId (bankdIdentity []))
  have hmodel : (fillCompId (bankdIdentity [])).hwModel = none := rfl
  exact ⟨h.1.mpr rfl, h.2.mpr (by simp [hmodel])⟩

/-- The hardware model `m` is transmitted and comes back empty. -/
theorem model_lost : (bankdIdentity (ascii "m")).Terminated ∧
    ¬(rsproCompIdRetrieve (fillCompId (bankdIdentity (ascii "m")))).Same
        (bankdIdentity (ascii "m")) ∧
      (fillCompId (bankdIdentity (ascii "m"))).hwModel = some (ascii "m") := by
  refine ⟨bankdIdentity_terminated _, ?_, rfl⟩
  rintro ⟨_, h⟩
  have hmodel := congrArg (fun l => l.getD 4 []) h
  exact absurd hmodel (by decide)

end Remsim
