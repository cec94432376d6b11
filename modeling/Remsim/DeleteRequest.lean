import Remsim.Decimal
import Remsim.Refinement

/-! # The request that deletes a mapping (`rest_api.c`)

`DELETE /slotmaps/:slotmap_id` names a mapping by the decimal numeral of its id.  The handler
converts the string with `strtoul()`, and neither looks at where the conversion stopped nor at
whether there was a digit.  `Deletes` says what a request should do, and `NamedByNumeral` which
requests do it. -/

namespace Remsim

open Decimal

/-- `slotmap_get_id()`, in the 32 bits that it computes with. -/
def slotmapGetId32 (x : SlotMapping) : UInt32 :=
  (x.bank.bankId.toUInt32 <<< 16) ||| x.bank.slotNr.toUInt32

/-- The last part of the path in `slotmap_delete()` of `osmo-remsim-apitool`. -/
def apitoolSlotmapId (bankId bankSlot : ℕ) : List UInt8 := numeral (bankId * 65536 + bankSlot)

namespace Server

variable (s : Server)

/-- `api_cb_slotmaps_del()`, given `errno` and the part of the path that names the mapping. -/
def apiCbSlotmapsDelStr (errno : ℤ) (slotmapIdStr : Option (List UInt8)) :
    Except Fault (ℕ × Server) :=
  match slotmapIdStr with
  | none => .ok (400, s)
  | some str =>
      let r := strtoul str
      -- `errno` is not cleared before the call
      if r.1 = ulongMax ∧ (r.2 = true ∨ errno ≠ 0) then .ok (400, s)
      else s.apiCbSlotmapsDel r.1

/-- The mapping is off the list, and every other one is where and what it was. -/
structure Removes (m : MapId) (s s' : Server) : Prop where
  mappings : s'.mappings = s.mappings.filter (· ≠ m)
  others : ∀ a, a ≠ m → s'.heap a = s.heap a

/-- The list is what it was, and so is every mapping. -/
structure Keeps (s s' : Server) : Prop where
  mappings : s'.mappings = s.mappings
  heap : s'.heap = s.heap

/-- What a request should do: remove the mapping whose id it names, or nothing. -/
structure Deletes (str : List UInt8) (r : Except Fault (ℕ × Server)) : Prop where
  named : ∀ m ∈ s.mappings, ∀ x, s.heap m = some x → str = numeral (slotmapGetId x) →
    ∃ s', r = .ok (200, s') ∧ Removes m s s'
  unnamed : (∀ m ∈ s.mappings, ∀ x, s.heap m = some x → str ≠ numeral (slotmapGetId x)) →
    ∃ status s', r = .ok (status, s') ∧ (status = 400 ∨ status = 404) ∧ Keeps s s'

/-- A mapping with the number that the string is converted to has the string as the numeral of its
id, and its bankd is connected if it is active. -/
def NamedByNumeral (str : List UInt8) : Prop :=
  ∀ m ∈ s.mappings, ∀ x, s.heap m = some x → (strtoul str).1 = slotmapGetId x →
    str = numeral (slotmapGetId x) ∧
      (x.state = .active → s.bankdConnById x.bank.bankId ≠ none)

/-! ### The id of a mapping -/

theorem slotmapGetId_lt (x : SlotMapping) : slotmapGetId x < 2 ^ 32 := by
  have h₁ := x.bank.bankId.toNat_lt
  have h₂ := x.bank.slotNr.toNat_lt
  unfold slotmapGetId
  omega

/-- The packing of the two numbers is the sum that the tool computes. -/
theorem toNat_slotmapGetId32 (x : SlotMapping) : (slotmapGetId32 x).toNat = slotmapGetId x := by
  have h₁ := x.bank.bankId.toNat_lt
  have h₂ := x.bank.slotNr.toNat_lt
  have hshift : (x.bank.bankId.toUInt32 <<< 16).toNat = x.bank.bankId.toNat <<< 16 := by
    rw [UInt32.toNat_shiftLeft, UInt16.toNat_toUInt32, Nat.shiftLeft_eq, Nat.shiftLeft_eq]
    exact Nat.mod_eq_of_lt (by simp; omega)
  rw [slotmapGetId32, UInt32.toNat_or, hshift, UInt16.toNat_toUInt32,
    ← Nat.shiftLeft_add_eq_or_of_lt (by omega), Nat.shiftLeft_eq]
  rfl

theorem bank_of_slotmapGetId {x y : SlotMapping} (h : slotmapGetId x = slotmapGetId y) :
    x.bank = y.bank := by
  obtain ⟨⟨a, b⟩, _, _⟩ := x
  obtain ⟨⟨c, d⟩, _, _⟩ := y
  have hb := b.toNat_lt
  have hd := d.toNat_lt
  unfold slotmapGetId at h
  simp only at h
  have h₁ : a.toNat = c.toNat := by omega
  have h₂ : b.toNat = d.toNat := by omega
  rw [UInt16.toNat_inj.mp h₁, UInt16.toNat_inj.mp h₂]

variable {s}

theorem mapById_some {mapId : ℕ} {m : MapId} (h : s.mapById mapId = some m) :
    m ∈ s.mappings ∧ ∃ x, s.heap m = some x ∧ slotmapGetId x = mapId := by
  have hp := List.find?_some h
  refine ⟨List.mem_of_find?_eq_some h, ?_⟩
  cases hx : s.heap m with
  | none => simp [hx] at hp
  | some x => exact ⟨x, rfl, by simpa [hx] using hp⟩

theorem mapById_none {mapId : ℕ} (h : s.mapById mapId = none) :
    ∀ m ∈ s.mappings, ∀ x, s.heap m = some x → slotmapGetId x ≠ mapId := by
  intro m hm x hx
  have hn := List.find?_eq_none.mp h m hm
  simpa [hx] using hn

theorem mapById_eq_some (hu : s.UniqueOn SlotMapping.bank) {m : MapId} (hm : m ∈ s.mappings)
    {x : SlotMapping} (hx : s.heap m = some x) : s.mapById (slotmapGetId x) = some m := by
  cases hf : s.mapById (slotmapGetId x) with
  | none => exact absurd rfl (mapById_none hf m hm x hx)
  | some a =>
      obtain ⟨ha, y, hy, hid⟩ := mapById_some hf
      rw [hu a ha m hm y x hy hx (bank_of_slotmapGetId hid)]

/-! ### What the handler does -/

/-- Marking a mapping as deleted removes it from the list, unless it is active and its bankd is not
connected. -/
theorem slotmapMarkDeleted_cases {m : MapId} {x : SlotMapping} (hx : s.heap m = some x) :
    ((x.state = .active → s.bankdConnById x.bank.bankId ≠ none) ∧
        ∃ s', s.slotmapMarkDeleted m = .ok s' ∧ Removes m s s') ∨
      (¬(x.state = .active → s.bankdConnById x.bank.bankId ≠ none) ∧
        s.slotmapMarkDeleted m = .error .nullConn) := by
  unfold slotmapMarkDeleted
  rw [hx]
  simp only
  cases hst : x.state with
  | new =>
      refine .inl ⟨nofun, _, rfl, ?_, fun a ha => Function.update_of_ne ha _ _⟩
      show (s.mappings.filter (· ≠ m)).filter (· ≠ m) = _
      rw [List.filter_filter]
      exact List.filter_congr fun a _ => Bool.and_self _
  | active =>
      cases hc : s.bankdConnById x.bank.bankId with
      | none => exact .inr ⟨fun h => h rfl rfl, rfl⟩
      | some c => exact .inl ⟨fun _ => nofun, _, rfl, rfl, fun a ha => Function.update_of_ne ha _ _⟩
  | _ => exact .inl ⟨nofun, _, rfl, rfl, fun _ _ => rfl⟩

theorem apiCbSlotmapsDel_listed (hu : s.UniqueOn SlotMapping.bank) {m : MapId}
    (hm : m ∈ s.mappings) {x : SlotMapping} (hx : s.heap m = some x) :
    ((x.state = .active → s.bankdConnById x.bank.bankId ≠ none) ∧
        ∃ s', s.apiCbSlotmapsDel (slotmapGetId x) = .ok (200, s') ∧ Removes m s s') ∨
      (¬(x.state = .active → s.bankdConnById x.bank.bankId ≠ none) ∧
        s.apiCbSlotmapsDel (slotmapGetId x) = .error .nullConn) := by
  unfold apiCbSlotmapsDel
  rw [mapById_eq_some hu hm hx]
  rcases slotmapMarkDeleted_cases hx with ⟨ha, s', hs', hr⟩ | ⟨ha, hf⟩
  · refine .inl ⟨ha, s'.trigger, ?_, hr.mappings, hr.others⟩
    simp only [hs', bind, Except.bind]
  · refine .inr ⟨ha, ?_⟩
    simp only [hf, bind, Except.bind]

theorem delStr_listed {errno : ℤ} {str : List UInt8} {x : SlotMapping}
    (h : (strtoul str).1 = slotmapGetId x) :
    s.apiCbSlotmapsDelStr errno (some str) = s.apiCbSlotmapsDel (slotmapGetId x) := by
  have hlt := slotmapGetId_lt x
  have hmax : ulongMax = 2 ^ 64 - 1 := rfl
  unfold apiCbSlotmapsDelStr
  simp only [h]
  rw [if_neg]
  omega

theorem delStr_unlisted {errno : ℤ} {str : List UInt8}
    (h : ∀ m ∈ s.mappings, ∀ x, s.heap m = some x → (strtoul str).1 ≠ slotmapGetId x) :
    ∃ status s', s.apiCbSlotmapsDelStr errno (some str) = .ok (status, s') ∧
      (status = 400 ∨ status = 404) ∧ Keeps s s' := by
  unfold apiCbSlotmapsDelStr
  simp only
  split_ifs with herr
  · exact ⟨400, s, rfl, .inl rfl, rfl, rfl⟩
  · unfold apiCbSlotmapsDel
    cases hf : s.mapById (strtoul str).1 with
    | none => exact ⟨404, s.trigger, rfl, .inr rfl, rfl, rfl⟩
    | some m =>
        obtain ⟨hm, x, hx, hid⟩ := mapById_some hf
        exact absurd hid.symm (h m hm x hx)

theorem strtoul_slotmapGetId (x : SlotMapping) :
    (strtoul (numeral (slotmapGetId x))).1 = slotmapGetId x := by
  have hlt := slotmapGetId_lt x
  have hmax : ulongMax = 2 ^ 64 - 1 := rfl
  rw [strtoul_numeral (by omega)]

/-- **A request deletes what it should exactly when the mapping it is taken to name is named by
its numeral.** -/
theorem deletes_iff (hu : s.UniqueOn SlotMapping.bank) (errno : ℤ) (str : List UInt8) :
    s.Deletes str (s.apiCbSlotmapsDelStr errno (some str)) ↔ s.NamedByNumeral str := by
  constructor
  · intro hd m hm x hx hid
    rw [delStr_listed hid] at hd
    have hlisted := apiCbSlotmapsDel_listed hu hm hx
    have hstr : str = numeral (slotmapGetId x) := by
      by_contra hne
      obtain ⟨status, s', hr, hst, _⟩ := hd.unnamed fun a ha y hy he => hne (by
        have hxy : slotmapGetId y = slotmapGetId x := by
          rw [← hid, he, strtoul_slotmapGetId]
        rw [he, hxy])
      rcases hlisted with ⟨_, t, ht, _⟩ | ⟨_, hf⟩
      · rw [ht] at hr
        obtain ⟨rfl, _⟩ := Prod.mk.inj (Except.ok.inj hr)
        omega
      · rw [hf] at hr
        cases hr
    refine ⟨hstr, ?_⟩
    rcases hlisted with ⟨ha, _⟩ | ⟨_, hf⟩
    · exact ha
    · obtain ⟨s', hr, _⟩ := hd.named m hm x hx hstr
      rw [hf] at hr
      cases hr
  · intro hn
    constructor
    · rintro m hm x hx rfl
      have hid := strtoul_slotmapGetId x
      rw [delStr_listed hid]
      rcases apiCbSlotmapsDel_listed hu hm hx with ⟨_, hs'⟩ | ⟨ha, _⟩
      · exact hs'
      · exact absurd (hn m hm x hx hid).2 ha
    · intro hne
      exact delStr_unlisted fun m hm x hx hid => hne m hm x hx (hn m hm x hx hid).1

/-- **A request deletes exactly the mapping that it names when it names it by its numeral, and
only then; ids are injective on bank slots, and the tool computes them in the same way.** -/
theorem delete_exact (hu : s.UniqueOn SlotMapping.bank) (errno : ℤ) (str : List UInt8) :
    (s.Deletes str (s.apiCbSlotmapsDelStr errno (some str)) ↔ s.NamedByNumeral str) ∧
      (∀ x y, slotmapGetId32 x = slotmapGetId32 y → x.bank = y.bank) ∧
      ∀ x : SlotMapping, apitoolSlotmapId x.bank.bankId.toNat x.bank.slotNr.toNat =
        numeral (slotmapGetId32 x).toNat := by
  refine ⟨deletes_iff hu errno str, fun x y h => ?_, fun x => ?_⟩
  · apply bank_of_slotmapGetId
    rw [← toNat_slotmapGetId32, ← toNat_slotmapGetId32, h]
  · rw [toNat_slotmapGetId32]
    rfl

/-- In a reachable state no active mapping is without its bankd, so that only the string counts. -/
theorem Good.namedByNumeral_iff (hg : s.Good) (str : List UInt8) :
    s.NamedByNumeral str ↔ ∀ m ∈ s.mappings, ∀ x, s.heap m = some x →
      (strtoul str).1 = slotmapGetId x → str = numeral (slotmapGetId x) := by
  constructor
  · exact fun h m hm x hx hid => (h m hm x hx hid).1
  · intro h m hm x hx hid
    refine ⟨h m hm x hx hid, fun hst => ?_⟩
    obtain ⟨c, hc, _⟩ := hg.book.conn_of_active hg.bankdConnById_iff hx hst
    rw [hc]
    exact nofun

/-- A server with one new mapping, of bank 0 and slot 0. -/
def zeroMapping : Server := (initial.apiCbSlotmapsPost ⟨0, 0⟩ ⟨5, 0⟩).2

theorem unique_zeroMapping : zeroMapping.UniqueOn SlotMapping.bank := by
  intro m hm m' hm' _ _ _ _ _
  rw [List.mem_singleton.mp hm, List.mem_singleton.mp hm']

theorem heap_zeroMapping {m : MapId} (hm : m ∈ zeroMapping.mappings) {x : SlotMapping}
    (hx : zeroMapping.heap m = some x) : x = ⟨⟨0, 0⟩, ⟨5, 0⟩, .new⟩ := by
  obtain rfl : m = 0 := List.mem_singleton.mp hm
  have h : zeroMapping.heap 0 = some ⟨⟨0, 0⟩, ⟨5, 0⟩, .new⟩ := by decide
  exact Option.some.inj (hx.symm.trans h)

/-- The string `abc` is no numeral, but it deletes the mapping with id 0. -/
theorem abc_deletes_zero :
    zeroMapping.UniqueOn SlotMapping.bank ∧
      ¬zeroMapping.Deletes [97, 98, 99] (zeroMapping.apiCbSlotmapsDelStr 0 (some [97, 98, 99])) := by
  refine ⟨unique_zeroMapping, fun hd => ?_⟩
  have hn := (deletes_iff unique_zeroMapping 0 [97, 98, 99]).mp hd
  have hbad := (hn 0 (by decide) ⟨⟨0, 0⟩, ⟨5, 0⟩, .new⟩ (by decide) (by decide)).1
  exact absurd hbad (by decide)

/-- The string `0` deletes that mapping too, as it should. -/
theorem zero_deletes_zero :
    zeroMapping.Deletes [48] (zeroMapping.apiCbSlotmapsDelStr 0 (some [48])) := by
  refine (delete_exact unique_zeroMapping 0 [48]).1.mpr fun m hm x hx _ => ?_
  rw [heap_zeroMapping hm hx]
  exact ⟨by decide, nofun⟩

end Server

end Remsim
