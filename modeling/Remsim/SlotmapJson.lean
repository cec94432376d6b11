import Remsim.Json
import Remsim.Rest

/-! # Slot maps in JSON (`rest_api.c`)

Writing a mapping as a JSON object, and reading one from the body of a request.  The readers store
the 64-bit integers of the document in 16-bit fields first and check the range of the fields
afterwards, so what they accept is a matter of the integers modulo 65536. -/

namespace Remsim

/-- `slot_map_state_name`. -/
def slotMapStateName : SlotMappingState → String
  | .new => "NEW"
  | .unacknowledged => "UNACKNOWLEDGED"
  | .active => "ACTIVE"
  | .deleteReq => "DELETE_REQ"
  | .deleting => "DELETING"

/-- `json_integer()` of a 16-bit field. -/
def jsonInteger (n : UInt16) : Json := .integer (.ofNat n.toNat)

/-- `bank_slot2json()`. -/
def bankSlot2json (b : BankSlot) : Json :=
  ((Json.object []).set "bankId" (jsonInteger b.bankId)).set "slotNr" (jsonInteger b.slotNr)

/-- `client_slot2json()`. -/
def clientSlot2json (c : ClientSlot) : Json :=
  ((Json.object []).set "clientId" (jsonInteger c.clientId)).set "slotNr" (jsonInteger c.slotNr)

/-- `slotmap2json()`. -/
def slotmap2json (x : SlotMapping) : Json :=
  (((Json.object []).set "bank" (bankSlot2json x.bank)).set "client"
    (clientSlot2json x.client)).set "state" (.string (slotMapStateName x.state))

/-- The largest bank id, client id and slot number. -/
def maxNr : UInt16 := 1023

/-- A pair of integers, each stored in 16 bits and then checked: `json2bank_slot()` and
`json2client_slot()` but for the names of the members. -/
def json2slot (idName nrName : String) (j : Json) : Option (UInt16 × UInt16) :=
  if !j.isObject then none
  else match j.get idName with
    | none => none
    | some jid =>
        if !jid.isInteger then none
        else match j.get nrName with
          | none => none
          | some jnr =>
              if !jnr.isInteger then none
              else
                let id := UInt16.ofInt jid.integerValue.toInt
                let nr := UInt16.ofInt jnr.integerValue.toInt
                if id > maxNr ∨ nr > maxNr then none else some (id, nr)

/-- `json2bank_slot()`. -/
def json2bankSlot (j : Json) : Option BankSlot :=
  (json2slot "bankId" "slotNr" j).map fun p => ⟨p.1, p.2⟩

/-- `json2client_slot()`. -/
def json2clientSlot (j : Json) : Option ClientSlot :=
  (json2slot "clientId" "slotNr" j).map fun p => ⟨p.1, p.2⟩

/-- `json2slotmap()`. -/
def json2slotmap (j : Json) : Option (BankSlot × ClientSlot) :=
  if !j.isObject then none
  else match j.get "bank" with
    | none => none
    | some jbank =>
        if !jbank.isObject then none
        else match j.get "client" with
          | none => none
          | some jclient =>
              if !jclient.isObject then none
              else match json2bankSlot jbank with
                | none => none
                | some b => (json2clientSlot jclient).map fun c => (b, c)

/-! ### What the readers accept -/

/-- The value is an object with these two integers. -/
def HoldsPair (idName nrName : String) (j : Json) (id nr : Int64) : Prop :=
  j.isObject = true ∧ j.get idName = some (.integer id) ∧ j.get nrName = some (.integer nr)

/-- The value is an object that describes a mapping with these four integers. -/
def HoldsSlotmap (j : Json) (bankId bankNr clientId clientNr : Int64) : Prop :=
  j.isObject = true ∧
    (∃ jb, j.get "bank" = some jb ∧ HoldsPair "bankId" "slotNr" jb bankId bankNr) ∧
    ∃ jc, j.get "client" = some jc ∧ HoldsPair "clientId" "slotNr" jc clientId clientNr

/-- The number is a valid bank id, client id or slot number. -/
def InRange (n : Int64) : Prop := 0 ≤ n.toInt ∧ n.toInt ≤ 1023

/-- What is stored of the number is a valid bank id, client id or slot number. -/
def WrapsInRange (n : Int64) : Prop := n.toInt % 65536 ≤ 1023

/-- The reader succeeds exactly when the value describes a mapping with four valid numbers, and
then it has stored these numbers. -/
structure Exact (j : Json) : Prop where
  succeeds : (json2slotmap j).isSome = true ↔
    ∃ bankId bankNr clientId clientNr,
      HoldsSlotmap j bankId bankNr clientId clientNr ∧
        InRange bankId ∧ InRange bankNr ∧ InRange clientId ∧ InRange clientNr
  stored : ∀ b c, json2slotmap j = some (b, c) →
    ∃ bankId bankNr clientId clientNr,
      HoldsSlotmap j bankId bankNr clientId clientNr ∧
        (b.bankId.toNat : ℤ) = bankId.toInt ∧ (b.slotNr.toNat : ℤ) = bankNr.toInt ∧
        (c.clientId.toNat : ℤ) = clientId.toInt ∧ (c.slotNr.toNat : ℤ) = clientNr.toInt

/-- The value describes a mapping with a number out of range, but all four wrap into the range. -/
def Wraps (j : Json) : Prop :=
  ∃ bankId bankNr clientId clientNr,
    HoldsSlotmap j bankId bankNr clientId clientNr ∧
    (WrapsInRange bankId ∧ WrapsInRange bankNr ∧ WrapsInRange clientId ∧ WrapsInRange clientNr) ∧
    ¬(InRange bankId ∧ InRange bankNr ∧ InRange clientId ∧ InRange clientNr)

theorem toNat_ofInt (z : ℤ) : ((UInt16.ofInt z).toNat : ℤ) = z % 65536 := by
  rw [UInt16.ofInt, UInt16.toNat_ofNat']
  omega

theorem not_gt_maxNr {n : Int64} : ¬UInt16.ofInt n.toInt > maxNr ↔ WrapsInRange n := by
  have h := toNat_ofInt n.toInt
  have hmax : maxNr.toNat = 1023 := rfl
  unfold WrapsInRange
  rw [gt_iff_lt, UInt16.lt_iff_toNat_lt, hmax]
  omega

theorem InRange.wraps {n : Int64} (h : InRange n) : WrapsInRange n := by
  obtain ⟨h₁, h₂⟩ := h
  unfold WrapsInRange
  omega

theorem InRange.stored {n : Int64} (h : InRange n) : ((UInt16.ofInt n.toInt).toNat : ℤ) = n.toInt := by
  obtain ⟨h₁, h₂⟩ := h
  rw [toNat_ofInt]
  omega

theorem json2slot_holds {idName nrName : String} {j : Json} {n m : Int64}
    (h : HoldsPair idName nrName j n m) (p : UInt16 × UInt16) :
    json2slot idName nrName j = some p ↔
      (WrapsInRange n ∧ WrapsInRange m) ∧
        p = (UInt16.ofInt n.toInt, UInt16.ofInt m.toInt) := by
  obtain ⟨ho, hid, hnr⟩ := h
  unfold json2slot
  simp only [ho, hid, hnr, Json.isInteger, Bool.not_true, Bool.false_eq_true, if_false]
  split_ifs with hgt
  · have hgt' : UInt16.ofInt n.toInt > maxNr ∨ UInt16.ofInt m.toInt > maxNr := hgt
    refine iff_of_false not_false fun hw => ?_
    rw [← not_gt_maxNr, ← not_gt_maxNr, ← not_or] at hw
    exact hw.1 hgt'
  · have hgt' : ¬(UInt16.ofInt n.toInt > maxNr ∨ UInt16.ofInt m.toInt > maxNr) := hgt
    rw [not_or, not_gt_maxNr, not_gt_maxNr] at hgt'
    rw [Option.some.injEq]
    exact ⟨fun e => ⟨hgt', e.symm⟩, fun e => e.2.symm⟩

theorem holds_of_json2slot {idName nrName : String} {j : Json} {p : UInt16 × UInt16}
    (h : json2slot idName nrName j = some p) : ∃ n m, HoldsPair idName nrName j n m := by
  unfold json2slot at h
  cases hj : j.isObject with
  | false => simp [hj] at h
  | true =>
      cases hid : j.get idName with
      | none => simp [hj, hid] at h
      | some jid =>
          cases hi : jid.isInteger with
          | false => simp [hj, hid, hi] at h
          | true =>
              cases hnr : j.get nrName with
              | none => simp [hj, hid, hi, hnr] at h
              | some jnr =>
                  cases hr : jnr.isInteger with
                  | false => simp [hj, hid, hi, hnr, hr] at h
                  | true =>
                      obtain ⟨n, rfl⟩ := Json.isInteger_iff.mp hi
                      obtain ⟨m, rfl⟩ := Json.isInteger_iff.mp hr
                      exact ⟨n, m, hj, hid, hnr⟩

/-- The slots that are stored for four integers. -/
def storedSlots (bankId bankNr clientId clientNr : Int64) : BankSlot × ClientSlot :=
  (⟨.ofInt bankId.toInt, .ofInt bankNr.toInt⟩, ⟨.ofInt clientId.toInt, .ofInt clientNr.toInt⟩)

theorem json2slotmap_holds {j : Json} {bankId bankNr clientId clientNr : Int64}
    (h : HoldsSlotmap j bankId bankNr clientId clientNr) (r : BankSlot × ClientSlot) :
    json2slotmap j = some r ↔
      (WrapsInRange bankId ∧ WrapsInRange bankNr ∧ WrapsInRange clientId ∧
        WrapsInRange clientNr) ∧ r = storedSlots bankId bankNr clientId clientNr := by
  obtain ⟨ho, ⟨jb, hb, hpb⟩, jc, hc, hpc⟩ := h
  unfold json2slotmap json2bankSlot json2clientSlot
  simp only [ho, hb, hc, hpb.1, hpc.1, Bool.not_true, Bool.false_eq_true, if_false]
  have hjb := json2slot_holds hpb
  have hjc := json2slot_holds hpc
  cases hb' : json2slot "bankId" "slotNr" jb with
  | none =>
      refine iff_of_false (Option.some_ne_none _).symm fun hw => ?_
      rw [(hjb _).mpr ⟨⟨hw.1.1, hw.1.2.1⟩, rfl⟩] at hb'
      cases hb'
  | some p =>
      obtain ⟨hwb, rfl⟩ := (hjb p).mp hb'
      cases hc' : json2slot "clientId" "slotNr" jc with
      | none =>
          refine iff_of_false (Option.some_ne_none _).symm fun hw => ?_
          rw [(hjc _).mpr ⟨hw.1.2.2, rfl⟩] at hc'
          cases hc'
      | some q =>
          obtain ⟨hwc, rfl⟩ := (hjc q).mp hc'
          simp only [Option.map_some, Option.some.injEq]
          exact ⟨fun e => ⟨⟨hwb.1, hwb.2, hwc⟩, e.symm⟩, fun e => e.2.symm⟩

theorem holds_of_json2slotmap {j : Json} {r : BankSlot × ClientSlot}
    (h : json2slotmap j = some r) :
    ∃ bankId bankNr clientId clientNr, HoldsSlotmap j bankId bankNr clientId clientNr := by
  unfold json2slotmap json2bankSlot json2clientSlot at h
  cases hj : j.isObject with
  | false => simp [hj] at h
  | true =>
      cases hb : j.get "bank" with
      | none => simp [hj, hb] at h
      | some jb =>
          cases hc : j.get "client" with
          | none => simp [hj, hb, hc] at h
          | some jc =>
              cases hpb : json2slot "bankId" "slotNr" jb with
              | none => simp [hj, hb, hc, hpb] at h
              | some p =>
                  cases hpc : json2slot "clientId" "slotNr" jc with
                  | none => simp [hj, hb, hc, hpb, hpc] at h
                  | some q =>
                      obtain ⟨n, m, hnm⟩ := holds_of_json2slot hpb
                      obtain ⟨k, l, hkl⟩ := holds_of_json2slot hpc
                      exact ⟨n, m, k, l, hj, ⟨jb, hb, hnm⟩, jc, hc, hkl⟩

theorem HoldsPair.unique {idName nrName : String} {j : Json} {n m n' m' : Int64}
    (h : HoldsPair idName nrName j n m) (h' : HoldsPair idName nrName j n' m') :
    n = n' ∧ m = m' := by
  have hid := h.2.1.symm.trans h'.2.1
  have hnr := h.2.2.symm.trans h'.2.2
  injection hid with hid
  injection hnr with hnr
  injection hid with hid
  injection hnr with hnr
  exact ⟨hid, hnr⟩

theorem HoldsSlotmap.unique {j : Json} {a b c d a' b' c' d' : Int64}
    (h : HoldsSlotmap j a b c d) (h' : HoldsSlotmap j a' b' c' d') :
    (a = a' ∧ b = b') ∧ c = c' ∧ d = d' := by
  obtain ⟨_, ⟨jb, hb, hpb⟩, jc, hc, hpc⟩ := h
  obtain ⟨_, ⟨jb', hb', hpb'⟩, jc', hc', hpc'⟩ := h'
  obtain rfl : jb = jb' := Option.some.inj (hb.symm.trans hb')
  obtain rfl : jc = jc' := Option.some.inj (hc.symm.trans hc')
  exact ⟨hpb.unique hpb', hpc.unique hpc'⟩

/-- The four numbers of a value that is read are valid unless one of them wraps. -/
theorem inRange_of_read {j : Json} (hnw : ¬Wraps j) {r : BankSlot × ClientSlot}
    (hread : json2slotmap j = some r) {a b c d : Int64} (hh : HoldsSlotmap j a b c d) :
    InRange a ∧ InRange b ∧ InRange c ∧ InRange d := by
  by_contra hout
  exact hnw ⟨a, b, c, d, hh, ((json2slotmap_holds hh r).mp hread).1, hout⟩

/-- **A value is read exactly unless a number out of range wraps into it.** -/
theorem exact_iff_not_wraps (j : Json) : Exact j ↔ ¬Wraps j := by
  constructor
  · rintro hex ⟨n, m, k, l, hh, hw, hout⟩
    have hread := (json2slotmap_holds hh (storedSlots n m k l)).mpr ⟨hw, rfl⟩
    obtain ⟨n', m', k', l', hh', hin⟩ := hex.succeeds.mp (Option.isSome_of_eq_some hread)
    obtain ⟨⟨rfl, rfl⟩, rfl, rfl⟩ := hh.unique hh'
    exact hout hin
  · intro hnw
    refine ⟨⟨fun hsome => ?_, ?_⟩, fun b c hread => ?_⟩
    · obtain ⟨r, hread⟩ := Option.isSome_iff_exists.mp hsome
      obtain ⟨n, m, k, l, hh⟩ := holds_of_json2slotmap hread
      exact ⟨n, m, k, l, hh, inRange_of_read hnw hread hh⟩
    · rintro ⟨n, m, k, l, hh, hn, hm, hk, hl⟩
      refine Option.isSome_of_eq_some
        ((json2slotmap_holds hh (storedSlots n m k l)).mpr ⟨?_, rfl⟩)
      exact ⟨hn.wraps, hm.wraps, hk.wraps, hl.wraps⟩
    · obtain ⟨n, m, k, l, hh⟩ := holds_of_json2slotmap hread
      obtain ⟨hn, hm, hk, hl⟩ := inRange_of_read hnw hread hh
      obtain ⟨rfl, rfl⟩ := Prod.mk.inj ((json2slotmap_holds hh _).mp hread).2
      exact ⟨n, m, k, l, hh, hn.stored, hm.stored, hk.stored, hl.stored⟩

/-! ### Writing and reading back -/

theorem toInt_jsonInteger (n : UInt16) : (Int64.ofNat n.toNat).toInt = n.toNat := by
  have h := n.toNat_lt
  exact Int64.toInt_ofNat_of_lt (by omega)

theorem inRange_ofNat {n : UInt16} (h : n ≤ maxNr) : InRange (.ofNat n.toNat) := by
  have hle : n.toNat ≤ 1023 := UInt16.le_iff_toNat_le.mp h
  unfold InRange
  rw [toInt_jsonInteger]
  omega

/-- What `slotmap2json()` writes describes the mapping. -/
theorem holds_slotmap2json (x : SlotMapping) :
    HoldsSlotmap (slotmap2json x) (.ofNat x.bank.bankId.toNat) (.ofNat x.bank.slotNr.toNat)
      (.ofNat x.client.clientId.toNat) (.ofNat x.client.slotNr.toNat) := by
  refine ⟨rfl, ⟨bankSlot2json x.bank, rfl, rfl, rfl, rfl⟩, clientSlot2json x.client, rfl, rfl, rfl,
    rfl⟩

/-- All four fields of the mapping are valid. -/
def SlotMapping.InRange (x : SlotMapping) : Prop :=
  x.bank.bankId ≤ maxNr ∧ x.bank.slotNr ≤ maxNr ∧ x.client.clientId ≤ maxNr ∧
    x.client.slotNr ≤ maxNr

theorem json2slotmap_slotmap2json {x : SlotMapping} (h : x.InRange) :
    json2slotmap (slotmap2json x) = some x.slots := by
  obtain ⟨h₁, h₂, h₃, h₄⟩ := h
  refine (json2slotmap_holds (holds_slotmap2json x) x.slots).mpr
    ⟨⟨(inRange_ofNat h₁).wraps, (inRange_ofNat h₂).wraps, (inRange_ofNat h₃).wraps,
      (inRange_ofNat h₄).wraps⟩, ?_⟩
  simp only [storedSlots, toInt_jsonInteger, ofInt_toNat]
  rfl

/-- **Reading a value is exact unless a number wraps, and writing a mapping and reading it back
gives its slots.** -/
theorem json_exact_iff (j : Json) :
    (Exact j ↔ ¬Wraps j) ∧
      ∀ x : SlotMapping, x.InRange → json2slotmap (slotmap2json x) = some x.slots :=
  ⟨exact_iff_not_wraps j, fun _ => json2slotmap_slotmap2json⟩

/-- The object that describes a mapping of bank 65537, slot 0, to client 5, slot 0. -/
def bank65537 : Json :=
  .object [("bank", .object [("bankId", .integer 65537), ("slotNr", .integer 0)]),
    ("client", .object [("clientId", .integer 5), ("slotNr", .integer 0)])]

/-- Bank 65537 is read as bank 1. -/
theorem bank65537_accepted : json2slotmap bank65537 = some (⟨1, 0⟩, ⟨5, 0⟩) ∧ ¬Exact bank65537 := by
  have hread : json2slotmap bank65537 = some (⟨1, 0⟩, ⟨5, 0⟩) := by decide
  refine ⟨hread, fun hex => ?_⟩
  obtain ⟨n, m, k, l, hh, hin⟩ := hex.succeeds.mp (Option.isSome_of_eq_some hread)
  have hh' : HoldsSlotmap bank65537 65537 0 5 0 :=
    ⟨rfl, ⟨_, rfl, rfl, rfl, rfl⟩, _, rfl, rfl, rfl, rfl⟩
  obtain ⟨⟨rfl, _⟩, _⟩ := hh.unique hh'
  exact absurd hin.1.2 (by decide)

/-- The object that describes a mapping of bank 1, slot 0, to client 5, slot 2. -/
def bank1 : Json :=
  .object [("bank", .object [("bankId", .integer 1), ("slotNr", .integer 0)]),
    ("client", .object [("clientId", .integer 5), ("slotNr", .integer 2)])]

/-- It is read as it stands, and the mapping survives the round trip. -/
theorem bank1_exact :
    Exact bank1 ∧ json2slotmap bank1 = some (⟨1, 0⟩, ⟨5, 2⟩) ∧
      json2slotmap (slotmap2json ⟨⟨1, 0⟩, ⟨5, 2⟩, .active⟩) = some (⟨1, 0⟩, ⟨5, 2⟩) := by
  refine ⟨(json_exact_iff bank1).1.mpr ?_, by decide,
    (json_exact_iff bank1).2 ⟨⟨1, 0⟩, ⟨5, 2⟩, .active⟩ ?_⟩
  · rintro ⟨n, m, k, l, hh, _, hout⟩
    have hh' : HoldsSlotmap bank1 1 0 5 2 :=
      ⟨rfl, ⟨_, rfl, rfl, rfl, rfl⟩, _, rfl, rfl, rfl, rfl⟩
    obtain ⟨⟨rfl, rfl⟩, rfl, rfl⟩ := hh.unique hh'
    exact hout (by unfold InRange; decide)
  · unfold SlotMapping.InRange
    decide

/-! ### The request that creates a mapping -/

namespace Server

variable (s : Server)

/-- `api_cb_slotmaps_post()`, given the JSON body of the request, if it has one. -/
def apiCbSlotmapsPostBody (body : Option Json) : ℕ × Server :=
  match body.bind json2slotmap with
  | none => (400, s)
  | some r => s.apiCbSlotmapsPost r.1 r.2

theorem post_slotmap2json {x : SlotMapping} (h : x.InRange) :
    s.apiCbSlotmapsPostBody (some (slotmap2json x)) = s.apiCbSlotmapsPost x.bank x.client := by
  unfold apiCbSlotmapsPostBody
  rw [Option.bind_some, json2slotmap_slotmap2json h]
  rfl

/-- A request whose body describes no mapping, and in which no number wraps, is refused and
changes nothing. -/
theorem post_refused {j : Json} (hnw : ¬Wraps j)
    (hbad : ¬∃ a b c d, HoldsSlotmap j a b c d ∧ InRange a ∧ InRange b ∧ InRange c ∧ InRange d) :
    s.apiCbSlotmapsPostBody (some j) = (400, s) := by
  have hex := (exact_iff_not_wraps j).mpr hnw
  unfold apiCbSlotmapsPostBody
  cases hread : json2slotmap j with
  | none =>
      rw [Option.bind_some, hread]
  | some r => exact absurd (hex.succeeds.mp (Option.isSome_of_eq_some hread)) hbad

end Server

end Remsim
