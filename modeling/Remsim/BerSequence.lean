import Remsim.BerOctets

/-! # SEQUENCE (`constr_SEQUENCE.c`)

The decoder walks through the table of members, looks for the tag in front of it among the members
that may come next, skips what it does not know where the type is extensible, and hands the rest to
the decoder of the member that it found.  `decodeMembers` is that loop and `skipRest` the one that
reads the end; the structure is decoded in one call, so what is kept for another one is left out.

`SequenceOk` says what the loop relies on in the table of a type: from each place where the loop can
be, the tag of each member that can come next leads to that member.  It is decidable, so that a
table is checked by computation. -/

namespace Remsim.Ber

open Delimited

/-! ### The tables -/

/-- `asn_TYPE_member_t`: whether the member is a pointer, how many members from this one on are
optional, the tag and its mode, and the type. -/
structure Member where
  pointer : Bool
  optional : ℕ
  tag : ℕ
  tagMode : TagMode
  type : TypeDescriptor

/-- `asn_TYPE_tag2member_t`. -/
structure Tag2Member where
  elTag : ℕ
  elNo : ℕ
  toffFirst : ℤ
  toffLast : ℤ
deriving DecidableEq, Repr

/-- `asn_SEQUENCE_specifics_t`. -/
structure SequenceSpecs where
  tag2el : List Tag2Member
  extAfter : ℤ
  extBefore : ℤ

/-- `(ber_tlv_tag_t)-1`, the tag of a member that has more than one. -/
def ambiguousTag : ℕ := 2 ^ 32 - 1

/-- `IN_EXTENSION_GROUP()`. -/
def inExtensionGroup (specs : SequenceSpecs) (membIdx : ℕ) : Bool :=
  specs.extAfter < membIdx ∧ membIdx < specs.extBefore

/-! ### Looking for a member -/

/-- The result of the linear search. -/
inductive Search where
  | found (n : ℕ)
  | missing (useBsearch : Bool)

/-- The linear search, from member `n` on. -/
def linearSearch (tlvTag : ℕ) : List Member → (n : ℕ) → (useBsearch : Bool) → Search
  | [], _, useBsearch => .missing useBsearch
  | e :: elements, n, useBsearch =>
      if tlvTag = e.tag then .found n
      else if e.tag = ambiguousTag then .missing true
      else linearSearch tlvTag elements (n + 1) useBsearch

/-- The last entry that is in reach. -/
def bestEntry (edx edxMax : ℕ) : List Tag2Member → Option ℕ → Option ℕ
  | [], best => best
  | t2m :: rest, best =>
      if edxMax < t2m.elNo then best
      else if t2m.elNo < edx then bestEntry edx edxMax rest best
      else bestEntry edx edxMax rest (some t2m.elNo)

/-- The binary search with `_t2e_cmp()`, for which the entries of the tag from member `edx` on are
equal, and the way back to the first of that tag. -/
def bsearchMember (tag2el : List Tag2Member) (tlvTag edx edxMax : ℕ) : Option ℕ :=
  match tag2el.findIdx? fun e => e.elTag = tlvTag ∧ edx ≤ e.elNo with
  | none => none
  | some i =>
      match tag2el[i]? with
      | none => none
      | some t2m =>
          let first := (i + t2m.toffFirst).toNat
          let last := (i + t2m.toffLast).toNat
          bestEntry edx edxMax ((tag2el.drop first).take (last + 1 - first)) none

/-- `opt_edx_end`, the end of the linear search, and whether it is cut short. -/
def searchEnd (elementsCount edx optional : ℕ) : ℕ × Bool :=
  let optEdxEnd := edx + optional + 1
  if elementsCount < optEdxEnd then (elementsCount, false)
  else if 8 < optEdxEnd - edx then (edx + 8, true)
  else (optEdxEnd, false)

/-- The member with a tag among those that may come at `edx`. -/
def findMember (elements : List Member) (specs : SequenceSpecs) (edx optional tlvTag : ℕ) :
    Option ℕ :=
  let r := searchEnd elements.length edx optional
  match linearSearch tlvTag ((elements.drop edx).take (r.1 - edx)) edx r.2 with
  | .found n => some n
  | .missing true => bsearchMember specs.tag2el tlvTag edx (edx + optional)
  | .missing false => none

/-! ### Decoding -/

/-- What is in the buffer, how much of the structure is left (negative while end-of-contents octets
are awaited), and how much was consumed. -/
structure Frame where
  data : List UInt8
  left : ℤ
  consumed : ℕ

/-- The octets of which there are `LEFT`. -/
def Frame.window (f : Frame) : List UInt8 := if f.left < 0 then f.data else f.data.take f.left.toNat

/-- `SIZE_VIOLATION`. -/
def Frame.sizeViolation (f : Frame) : Prop := 0 ≤ f.left ∧ f.left ≤ f.data.length

instance (f : Frame) : Decidable f.sizeViolation := inferInstanceAs (Decidable (_ ∧ _))

/-- `ADVANCE()`. -/
def Frame.advance (f : Frame) (n : ℕ) : Frame where
  data := f.data.drop n
  left := if 0 ≤ f.left then f.left - n else f.left
  consumed := f.consumed + n

/-- Whether there is one zero octet and nothing behind it, where two could end the structure. -/
def Frame.halfEnd (f : Frame) : Bool :=
  f.left < 0 ∧ f.window.head? = some 0 ∧ f.window.length < 2

/-- The loop of phases 3 and 4: everything up to the end is skipped, which only an extensible type
allows. -/
def skipRest (stack : ℕ) (extensible : Bool) : (fuel : ℕ) → (phase4 : Bool) → Frame → Outcome Unit
  | 0, _, _ => .hang
  | fuel + 1, phase4, f =>
      if f.left = 0 then .ok () f.consumed
      else
        ((berFetchTag f.window).within f.sizeViolation).bind fun _ tl =>
          if f.halfEnd then Outcome.more.within f.sizeViolation
          else if f.left < 0 ∧ endOfContents f.data then
            skipRest stack extensible fuel true { f.advance 2 with left := f.left + 1 }
          else if extensible = false ∨ phase4 then .fail
          else
            ((berSkipLength stack (berTlvConstructed f.data)
              (f.window.drop tl)).within f.sizeViolation).bind fun _ ll =>
                skipRest stack extensible fuel phase4 (f.advance (tl + ll))

/-- The loop over the members, at member `edx` with the structure as it is so far. -/
def decodeMembers (stack : ℕ) (elements : List Member) (specs : SequenceSpecs) :
    (fuel edx : ℕ) → List (Option Value) → Frame → Outcome (List (Option Value))
  | 0, _, _, _ => .hang
  | fuel + 1, edx, st, f =>
      let phase3 := (skipRest stack (inExtensionGroup specs elements.length) (f.data.length + 1)
        false f).bind fun _ n => .ok st n
      match elements[edx]? with
      | none => phase3
      | some e =>
          let atEnd := edx + e.optional = elements.length ∨
            (inExtensionGroup specs edx ∧ elements.length < specs.extBefore)
          if f.left = 0 ∧ atEnd then .ok st f.consumed
          else
            ((berFetchTag f.window).within f.sizeViolation).bind fun tlvTag tagLen =>
              if f.halfEnd then Outcome.more.within f.sizeViolation
              else if f.left < 0 ∧ endOfContents f.data ∧ atEnd then phase3
              else
                match findMember elements specs edx e.optional tlvTag with
                | some n =>
                    match elements[n]? with
                    | none => .fail
                    | some m =>
                        ((m.type.berDecoder m.tagMode f.window).within f.sizeViolation).bind
                          fun v used => decodeMembers stack elements specs fuel (n + 1)
                            (st.set n (some v)) (f.advance used)
                | none =>
                    if inExtensionGroup specs (edx + e.optional) = false then .fail
                    else
                      ((berSkipLength stack (berTlvConstructed f.data)
                        (f.window.drop tagLen)).within f.sizeViolation).bind fun _ skip =>
                          decodeMembers stack elements specs fuel (edx + e.optional) st
                            (f.advance (skip + tagLen))

/-- `SEQUENCE_decode_ber()`. -/
def sequenceDecodeBer (stack : ℕ) (tags : List ℕ) (elements : List Member) (specs : SequenceSpecs)
    (tagMode : TagMode) (ptr : List UInt8) : Outcome Value :=
  (berCheckTags tags tagMode (some true) ptr).bind fun (left, _) consumed =>
    (decodeMembers stack elements specs (elements.length + ptr.length + 1) 0
      (List.replicate elements.length none) ⟨ptr.drop consumed, left, consumed⟩).bind
        fun st n => .ok (.struct st) n

/-! ### Encoding -/

/-- The sum of the sizes of the members; a mandatory one must be there. -/
def estimateMembers : List Member → List (Option Value) → Option ℕ
  | [], [] => some 0
  | elm :: elements, none :: st =>
      if elm.pointer ∧ elm.optional ≠ 0 then estimateMembers elements st else none
  | elm :: elements, some v :: st =>
      (elm.type.derEncoder v elm.tagMode elm.tag none).bind fun r =>
        (estimateMembers elements st).map fun n => r.1 + n
  | _, _ => none

/-- The members, one after another, and the sum of their sizes. -/
def writeMembers : List Member → List (Option Value) → Encoder
  | [], [] => fun cb => some (0, cb)
  | elm :: elements, none :: st =>
      if elm.pointer then writeMembers elements st else fun _ => none
  | elm :: elements, some v :: st =>
      (elm.type.derEncoder v elm.tagMode elm.tag).and (writeMembers elements st)
  | _, _ => fun _ => none

/-- `SEQUENCE_encode_der()`: the sum of the sizes must be what it was when it was estimated. -/
def sequenceEncodeDer (tags : List ℕ) (elements : List Member) (v : Value) (tagMode : TagMode)
    (tag : ℕ) : Encoder := fun cb =>
  match v with
  | .struct st =>
      (estimateMembers elements st).bind fun computedSize =>
        (derWriteTags tags computedSize tagMode true tag cb).bind fun (ret, cb) =>
          match cb with
          | none => some (computedSize + ret, none)
          | some arg =>
              (writeMembers elements st (some arg)).bind fun (n, cb) =>
                if n ≠ computedSize then none else some (computedSize + ret, cb)
  | _ => none

/-- The descriptor of a SEQUENCE. -/
def sequence (stack : ℕ) (tags : List ℕ) (elements : List Member) (specs : SequenceSpecs) :
    TypeDescriptor where
  tags := tags
  berDecoder := sequenceDecodeBer stack tags elements specs
  derEncoder := sequenceEncodeDer tags elements

/-! ### What is in the buffer -/

/-- The contents that are left are in the buffer, and behind those of indefinite length two zero
octets. -/
inductive InFrame (f : Frame) (c : List UInt8) : ℕ → Prop where
  | definite (rest : List UInt8) (hl : f.left = c.length) (hd : f.data = c ++ rest) : InFrame f c 0
  | indefinite (rest : List UInt8) (hl : f.left = -1) (hd : f.data = c ++ 0 :: 0 :: rest) :
      InFrame f c 2

/-- Some of that is missing. -/
inductive CutFrame (f : Frame) (c : List UInt8) : Prop where
  | definite (q : List UInt8) (hq : q ≠ []) (hl : f.left = c.length) (hd : f.data ++ q = c)
  | indefinite (q : List UInt8) (hq : q ≠ []) (hl : f.left = -1) (hd : f.data ++ q = c ++ [0, 0])

section frames

variable {f : Frame} {b c h : List UInt8} {k tag : ℕ} {form : Bool}

theorem InFrame.append (hf : InFrame f (b ++ c) k) :
    (∃ w, f.window = b ++ w) ∧ (∃ y, f.data = b ++ y) := by
  cases hf with
  | definite rest hl hd =>
      rw [List.length_append] at hl
      rw [List.append_assoc] at hd
      refine ⟨⟨(c ++ rest).take (f.left.toNat - b.length), ?_⟩, _, hd⟩
      rw [Frame.window, if_neg (by omega), hd, List.take_append, List.take_of_length_le (by omega)]
  | indefinite rest hl hd =>
      rw [List.append_assoc] at hd
      refine ⟨⟨c ++ 0 :: 0 :: rest, ?_⟩, _, hd⟩
      rw [Frame.window, if_pos (by omega), hd]

theorem InFrame.advance (hf : InFrame f (b ++ c) k) : InFrame (f.advance b.length) c k := by
  cases hf with
  | definite rest hl hd =>
      rw [List.length_append] at hl
      refine .definite rest ?_ ?_
      · rw [Frame.advance, if_pos (by omega)]
        show f.left - b.length = c.length
        omega
      · rw [Frame.advance, hd, List.append_assoc, List.drop_left]
  | indefinite rest hl hd =>
      refine .indefinite rest ?_ ?_
      · rw [Frame.advance, if_neg (by omega)]
        exact hl
      · rw [Frame.advance, hd, List.append_assoc, List.drop_left]

theorem CutFrame.window (hf : CutFrame f c) : f.window = f.data := by
  cases hf with
  | definite q hq hl hd =>
      have := congrArg List.length hd
      rw [List.length_append] at this
      rw [Frame.window, if_neg (by omega), List.take_of_length_le (by omega)]
  | indefinite q hq hl hd => rw [Frame.window, if_pos (by omega)]

theorem CutFrame.not_sizeViolation (hf : CutFrame f c) : ¬f.sizeViolation := by
  rintro ⟨h0, hlen⟩
  cases hf with
  | definite q hq hl hd =>
      have hpos := List.length_pos_of_ne_nil hq
      have := congrArg List.length hd
      rw [List.length_append] at this
      omega
  | indefinite q hq hl hd => omega

theorem CutFrame.left_ne_zero (hf : CutFrame f c) : f.left ≠ 0 := by
  cases hf with
  | definite q hq hl hd =>
      have hpos := List.length_pos_of_ne_nil hq
      have := congrArg List.length hd
      rw [List.length_append] at this
      omega
  | indefinite q hq hl hd => omega

theorem CutFrame.append (hf : CutFrame f (b ++ c)) :
    (∃ r, r ≠ [] ∧ f.data ++ r = b) ∨
      ∃ p, f.data = b ++ p ∧ CutFrame (f.advance b.length) c := by
  cases hf with
  | definite q hq hl hd =>
      obtain hcut | ⟨p, hp, hpq⟩ := append_cut hd
      · exact .inl hcut
      · refine .inr ⟨p, hp, .definite q hq ?_ ?_⟩
        · rw [List.length_append] at hl
          rw [Frame.advance, if_pos (by omega)]
          show f.left - b.length = c.length
          omega
        · rw [Frame.advance, hp, List.drop_left]
          exact hpq
  | indefinite q hq hl hd =>
      rw [List.append_assoc] at hd
      obtain hcut | ⟨p, hp, hpq⟩ := append_cut hd
      · exact .inl hcut
      · refine .inr ⟨p, hp, .indefinite q hq ?_ ?_⟩
        · rw [Frame.advance, if_neg (by omega)]
          exact hl
        · rw [Frame.advance, hp, List.drop_left]
          exact hpq

theorem CutFrame.nil (hf : CutFrame f []) :
    f.left = -1 ∧ (f.data = [] ∨ f.data = [0]) := by
  cases hf with
  | definite q hq hl hd => exact absurd (List.append_eq_nil_iff.mp hd).2 hq
  | indefinite q hq hl hd => exact ⟨hl, nulls_cut hq hd⟩

/-- An element in front is neither the end of the contents nor half of it. -/
theorem Identifier.not_end (hi : Identifier form tag h) (h0 : tag ≠ 0) {w y : List UInt8}
    (hw : f.window = h ++ w) (hd : f.data = h ++ y) :
    f.halfEnd = false ∧ endOfContents f.data = false := by
  constructor
  · obtain ⟨o, t, rfl, ho⟩ := hi.head_ne_zero h0
    rw [Frame.halfEnd, hw, decide_eq_false_iff_not]
    rintro ⟨-, hhead, -⟩
    exact ho (Option.some.inj hhead)
  · rw [hd]
    exact not_endOfContents hi h0 y

end frames

/-! ### The end of a structure -/

section rest

variable {stack fuel k : ℕ} {ext : Bool} {f : Frame} {es : List UInt8} {Tag : ℕ → Prop}

/-- **Unknown elements at the end are skipped**, where the type is extensible. -/
theorem skipRest_complete (hes : Elements Tag (Body stack) es) (hext : es = [] ∨ ext = true)
    (hf : InFrame f es k) (hfuel : es.length + k < fuel) :
    skipRest stack ext fuel false f = .ok () (f.consumed + es.length + k) := by
  induction hes generalizing fuel f with
  | nil =>
      obtain ⟨fuel, rfl⟩ : ∃ n, fuel = n + 1 := ⟨fuel - 1, by omega⟩
      cases hf with
      | definite rest hl hd =>
          have h0 : f.left = 0 := hl
          rw [skipRest, if_pos h0]
          rfl
      | indefinite rest hl hd =>
          obtain ⟨fuel, rfl⟩ : ∃ n, fuel = n + 1 := ⟨fuel - 1, by omega⟩
          have hw : f.window = 0 :: 0 :: rest := by
            rw [Frame.window, if_pos (by omega), hd]
            rfl
          have hfetch : berFetchTag (0 :: 0 :: rest) = .ok 0 1 := rfl
          have hhalf : f.halfEnd = false := by
            rw [Frame.halfEnd, hw, decide_eq_false_iff_not]
            rintro ⟨-, -, hlen⟩
            simp only [List.length_cons] at hlen
            omega
          have hend : f.left < 0 ∧ endOfContents f.data = true := by
            rw [hd]
            exact ⟨by omega, rfl⟩
          rw [skipRest, if_neg (by omega), hw, hfetch, Outcome.within_ok, Outcome.bind_ok, hhalf,
            if_neg Bool.false_ne_true, if_pos hend, skipRest, if_pos (by rw [hl]; rfl)]
          rfl
  | @cons c tag h b es hi h0 htag hb hes ih =>
      have hpos : 0 < h.length := List.length_pos_of_ne_nil (hi.reads.ne_nil rfl)
      have hbpos : 0 < b.length := by
        apply List.length_pos_of_ne_nil
        rintro rfl
        cases stack with
        | zero => exact hb
        | succ stack =>
            have := hb.reads.self
            cases this
      have hext' : ext = true := by
        rcases hext with hnil | hext
        · have := congrArg List.length hnil
          simp only [List.length_append, List.length_nil] at this
          omega
        · exact hext
      simp only [List.length_append] at hfuel ⊢
      obtain ⟨fuel, rfl⟩ : ∃ n, fuel = n + 1 := ⟨fuel - 1, by omega⟩
      have hf' := hf
      rw [List.append_assoc] at hf'
      obtain ⟨⟨w, hw⟩, y, hd⟩ := hf.append
      rw [List.append_assoc] at hw hd
      obtain ⟨hhalf, hend⟩ := hi.not_end h0 hw hd
      have hne : f.left ≠ 0 := by
        cases hf with
        | definite rest hl _ =>
            simp only [List.length_append] at hl
            omega
        | indefinite rest hl _ => omega
      have hcons : berTlvConstructed f.data = c := by
        rw [hd]
        exact hi.constructed_append _
      rw [skipRest, if_neg hne, hw, hi.reads.complete, Outcome.within_ok, Outcome.bind_ok, hhalf,
        if_neg Bool.false_ne_true, hend, if_neg (fun h => Bool.false_ne_true h.2), hext',
        if_neg (by decide), hcons, List.drop_left, hb.reads.complete, Outcome.within_ok,
        Outcome.bind_ok, ← hext']
      have hadv := hf.advance
      rw [List.length_append] at hadv
      rw [ih (.inr hext') hadv (by omega)]
      show Outcome.ok () (f.consumed + (h.length + b.length) + es.length + k) = _
      congr 1
      omega

theorem skipRest_cut (hes : Elements Tag (Body stack) es) (hext : es = [] ∨ ext = true)
    (hf : CutFrame f es) (hfuel : f.data.length < fuel) :
    skipRest stack ext fuel false f = .more := by
  induction hes generalizing fuel f with
  | nil =>
      obtain ⟨fuel, rfl⟩ := Nat.exists_eq_add_of_lt hfuel
      have hviol := hf.not_sizeViolation
      obtain ⟨hl, hd⟩ := hf.nil
      rw [skipRest, if_neg hf.left_ne_zero, hf.window]
      rcases hd with hd | hd
      · have hfetch : berFetchTag [] = .more := rfl
        rw [hd, hfetch, Outcome.within_more hviol, Outcome.bind_more]
      · have hfetch : berFetchTag [0] = .ok 0 1 := rfl
        have hhalf : f.halfEnd = true := by
          rw [Frame.halfEnd, hf.window, hd, decide_eq_true_eq]
          exact ⟨by omega, rfl, by decide⟩
        rw [hd, hfetch, Outcome.within_ok, Outcome.bind_ok, hhalf, if_pos rfl,
          Outcome.within_more hviol]
  | @cons c tag h b es hi h0 htag hb hes ih =>
      obtain ⟨fuel, rfl⟩ := Nat.exists_eq_add_of_lt hfuel
      have hext' : ext = true := by
        rcases hext with hnil | hext
        · have hh := (List.append_eq_nil_iff.mp (List.append_eq_nil_iff.mp hnil).1).1
          exact absurd hh (hi.reads.ne_nil rfl)
        · exact hext
      have hviol := hf.not_sizeViolation
      rw [skipRest, if_neg hf.left_ne_zero, hf.window]
      have hthere : ∀ p, f.data = h ++ p →
          berFetchTag f.data = .ok tag h.length ∧ f.data.drop h.length = p ∧
            berTlvConstructed f.data = c ∧ f.halfEnd = false ∧ endOfContents f.data = false := by
        intro p hd
        obtain ⟨hhalf, hend⟩ := hi.not_end h0 (hf.window.trans hd) hd
        refine ⟨?_, ?_, ?_, hhalf, hend⟩
        · rw [hd]
          exact hi.reads.complete p
        · rw [hd, List.drop_left]
        · rw [hd]
          exact hi.constructed_append _
      obtain ⟨r, hr, hp⟩ | ⟨p, hd, hf'⟩ := hf.append
      · obtain ⟨r', hr', hp'⟩ | ⟨p', hd, hp'⟩ := append_cut hp
        · rw [hi.reads.cut _ r' hr' hp', Outcome.within_more hviol, Outcome.bind_more]
        · obtain ⟨hrun, hdrop, hcons, hhalf, hend⟩ := hthere p' hd
          rw [hrun, Outcome.within_ok, Outcome.bind_ok, hhalf, if_neg Bool.false_ne_true, hend,
            if_neg (fun h => Bool.false_ne_true h.2), hext', if_neg (by decide), hcons, hdrop,
            hb.reads.cut p' r hr hp', Outcome.within_more hviol, Outcome.bind_more]
      · rw [List.append_assoc] at hd
        obtain ⟨hrun, hdrop, hcons, hhalf, hend⟩ := hthere (b ++ p) hd
        rw [hrun, Outcome.within_ok, Outcome.bind_ok, hhalf, if_neg Bool.false_ne_true, hend,
          if_neg (fun h => Bool.false_ne_true h.2), hext', if_neg (by decide), hcons, hdrop,
          hb.reads.complete, Outcome.within_ok, Outcome.bind_ok, ← hext', ← List.length_append]
        apply ih (.inr hext') hf'
        have hpos : 0 < h.length := List.length_pos_of_ne_nil (hi.reads.ne_nil rfl)
        have hlen := congrArg List.length hd
        rw [Frame.advance, List.length_drop]
        simp only [List.length_append] at hlen ⊢
        omega

end rest

/-! ### What the loop relies on -/

/-- A table of members, with what their types are for. -/
abbrev Members := List (Member × BerType)

def Members.elements (members : Members) : List Member := members.map Prod.fst

def Members.optionalAt (members : Members) (i : ℕ) : ℕ :=
  (members[i]?.map fun e => e.1.optional).getD 0

/-- The tags that a member can begin with. -/
def Members.tagsAt (members : Members) (i : ℕ) : List ℕ :=
  (members[i]?.map fun e => e.2.outer e.1.tagMode e.1.tag).getD []

/-- **What the decoder relies on**: a member that can come next is found by its tag, the count of
optional members counts no others and reaches the end when only such are left, the members of an
extension group are optional, and optional members are pointers. -/
structure SequenceOk (members : Members) (specs : SequenceSpecs) : Prop where
  finds : ∀ j < members.length, ∀ edx ≤ j, (∀ i < j, edx ≤ i → members.optionalAt i ≠ 0) →
    ∀ tag ∈ members.tagsAt j,
      findMember members.elements specs edx (members.optionalAt edx) tag = some j
  trailing : ∀ edx < members.length,
    (∀ i < members.length, edx ≤ i → members.optionalAt i ≠ 0) →
      edx + members.optionalAt edx = members.length
  counts : ∀ i < members.length, ∀ edx ≤ i, i < edx + members.optionalAt edx →
    members.optionalAt i ≠ 0
  extensions : members.length < specs.extBefore → ∀ i < members.length, specs.extAfter < i →
    members.optionalAt i ≠ 0
  pointers : ∀ e ∈ members, e.1.optional ≠ 0 → e.1.pointer = true

set_option synthInstance.maxSize 300 in
instance (members : Members) (specs : SequenceSpecs) : Decidable (SequenceOk members specs) :=
  decidable_of_iff
    ((∀ j < members.length, ∀ edx ≤ j, (∀ i < j, edx ≤ i → members.optionalAt i ≠ 0) →
        ∀ tag ∈ members.tagsAt j,
          findMember members.elements specs edx (members.optionalAt edx) tag = some j) ∧
      (∀ edx < members.length, (∀ i < members.length, edx ≤ i → members.optionalAt i ≠ 0) →
        edx + members.optionalAt edx = members.length) ∧
      (∀ i < members.length, ∀ edx ≤ i, i < edx + members.optionalAt edx →
        members.optionalAt i ≠ 0) ∧
      (members.length < specs.extBefore → ∀ i < members.length, specs.extAfter < i →
        members.optionalAt i ≠ 0) ∧
      ∀ e ∈ members, e.1.optional ≠ 0 → e.1.pointer = true)
    ⟨fun h => ⟨h.1, h.2.1, h.2.2.1, h.2.2.2.1, h.2.2.2.2⟩,
      fun h => ⟨h.finds, h.trailing, h.counts, h.extensions, h.pointers⟩⟩

/-- The encodings of members, one after another; an optional one may be absent. -/
def Contents : Members → List (Option Value) → List UInt8 → Prop
  | [], [], bs => bs = []
  | e :: members, none :: vs, bs => e.1.optional ≠ 0 ∧ Contents members vs bs
  | e :: members, some v :: vs, bs =>
      ∃ b₁ b₂, bs = b₁ ++ b₂ ∧ e.2.Encodes e.1.tagMode e.1.tag v b₁ ∧ Contents members vs b₂
  | _, _, _ => False

/-- A tag that is not in the tables of a type. -/
def UnknownTag (elements : List Member) (specs : SequenceSpecs) (tag : ℕ) : Prop :=
  tag ∉ elements.map Member.tag ∧ tag ∉ specs.tag2el.map Tag2Member.elTag

/-- SEQUENCE: the members, and behind them elements that only a later version of an extensible type
knows. -/
def BerType.sequence (stack own : ℕ) (members : Members) (specs : SequenceSpecs) : BerType where
  outer := fun m t => [outerTag own m t]
  Admits := SingleTag
  Encodes := fun m t v bs => SingleTag m t ∧ ∃ vs body es, v = .struct vs ∧
    Contents members vs body ∧
    Elements (UnknownTag members.elements specs) (Body stack) es ∧
    (es = [] ∨ inExtensionGroup specs members.length = true) ∧
    Constructed (outerTag own m t) (body ++ es) bs

section search

variable {tlvTag edx optional n : ℕ} {elements : List Member} {specs : SequenceSpecs}
  {useBsearch : Bool}

theorem linearSearch_unknown (h : ∀ e ∈ elements, e.tag ≠ tlvTag) (n : ℕ) (useBsearch : Bool) :
    ∃ b, linearSearch tlvTag elements n useBsearch = .missing b := by
  induction elements generalizing n with
  | nil => exact ⟨useBsearch, rfl⟩
  | cons e elements ih =>
      rw [linearSearch, if_neg fun he => h e List.mem_cons_self he.symm]
      split_ifs
      · exact ⟨true, rfl⟩
      · exact ih (fun e' he' => h e' (List.mem_cons_of_mem _ he')) (n + 1)

theorem linearSearch_found (h : linearSearch tlvTag elements n useBsearch = .found optional) :
    n ≤ optional ∧ optional < n + elements.length := by
  induction elements generalizing n with
  | nil => cases h
  | cons e elements ih =>
      rw [linearSearch] at h
      split_ifs at h
      · cases h
        exact ⟨le_rfl, Nat.lt_add_of_pos_right (Nat.succ_pos _)⟩
      · have := ih h
        rw [List.length_cons]
        omega

theorem bestEntry_bounds {tag2el : List Tag2Member} {edxMax : ℕ} {best : Option ℕ}
    (hbest : ∀ b ∈ best, edx ≤ b ∧ b ≤ edxMax) :
    ∀ b ∈ bestEntry edx edxMax tag2el best, edx ≤ b ∧ b ≤ edxMax := by
  induction tag2el generalizing best with
  | nil => exact hbest
  | cons e rest ih =>
      rw [bestEntry]
      split_ifs with hmax hmin
      · exact hbest
      · exact ih hbest
      · apply ih
        intro b hb
        obtain rfl := Option.some.inj hb
        omega

theorem findMember_bounds (h : findMember elements specs edx optional tlvTag = some n) :
    edx ≤ n ∧ n ≤ edx + optional := by
  unfold findMember at h
  dsimp only at h
  split at h
  · rename_i k hk
    obtain rfl := Option.some.inj h
    have hb := linearSearch_found hk
    have hend : (searchEnd elements.length edx optional).1 ≤ edx + optional + 1 := by
      unfold searchEnd
      dsimp only
      split_ifs
      · omega
      · dsimp only
        omega
      · exact le_rfl
    have hlen := List.length_take_le ((searchEnd elements.length edx optional).1 - edx)
      (elements.drop edx)
    omega
  · unfold bsearchMember at h
    split at h
    · cases h
    · split at h
      · cases h
      · exact bestEntry_bounds (fun b hb => by cases hb) n h
  · cases h

theorem findMember_unknown (h : UnknownTag elements specs tlvTag) (edx optional : ℕ) :
    findMember elements specs edx optional tlvTag = none := by
  have hbsearch : ∀ edxMax, bsearchMember specs.tag2el tlvTag edx edxMax = none := by
    intro edxMax
    have hnone : specs.tag2el.findIdx? (fun e => e.elTag = tlvTag ∧ edx ≤ e.elNo) = none := by
      rw [List.findIdx?_eq_none_iff]
      intro e he
      rw [decide_eq_false_iff_not]
      rintro ⟨htag, -⟩
      exact h.2 (List.mem_map.mpr ⟨e, he, htag⟩)
    rw [bsearchMember, hnone]
  have hlinear : ∀ k b, ∃ b', linearSearch tlvTag ((elements.drop edx).take k) edx b =
      .missing b' := by
    intro k b
    apply linearSearch_unknown
    intro e he htag
    exact h.1 (List.mem_map.mpr ⟨e, List.mem_of_mem_drop (List.mem_of_mem_take he), htag⟩)
  unfold findMember
  obtain ⟨b, hb⟩ := hlinear ((searchEnd elements.length edx optional).1 - edx)
    (searchEnd elements.length edx optional).2
  simp only [hb]
  cases b with
  | true => exact hbsearch _
  | false => rfl

end search

/-! ### The loop over the members -/

section loop

variable {stack fuel edx j k n tag : ℕ} {members : Members} {specs : SequenceSpecs}
  {st : List (Option Value)} {f : Frame} {es : List UInt8} {e : Member × BerType}

theorem length_elements (members : Members) : members.elements.length = members.length :=
  List.length_map _

theorem elements_get (he : members[j]? = some e) : members.elements[j]? = some e.1 := by
  rw [Members.elements, List.getElem?_map, he]
  rfl

theorem optionalAt_get (he : members[j]? = some e) : members.optionalAt j = e.1.optional := by
  rw [Members.optionalAt, he]
  rfl

theorem tagsAt_get (he : members[j]? = some e) :
    members.tagsAt j = e.2.outer e.1.tagMode e.1.tag := by
  rw [Members.tagsAt, he]
  rfl

theorem InFrame.length_le {c : List UInt8} (hf : InFrame f c k) : c.length + k ≤ f.data.length := by
  cases hf with
  | definite rest hl hd =>
      rw [hd, List.length_append]
      omega
  | indefinite rest hl hd =>
      rw [hd, List.length_append]
      simp only [List.length_cons]
      omega

theorem decodeMembers_end :
    decodeMembers stack members.elements specs (fuel + 1) members.length st f =
      (skipRest stack (inExtensionGroup specs members.length) (f.data.length + 1) false f).bind
        fun _ n => .ok st n := by
  have hnone : members.elements[members.length]? = none := by
    rw [List.getElem?_eq_none_iff, length_elements]
  rw [decodeMembers]
  simp only [hnone, length_elements]

/-- The member that comes next is found, whichever optional ones are absent before it. -/
theorem decodeMembers_found (ok : SequenceOk members specs) (he : members[j]? = some e)
    (hedx : edx ≤ j) (hopt : ∀ i < j, edx ≤ i → members.optionalAt i ≠ 0)
    (hfetch : berFetchTag f.window = .ok tag n) (htag : tag ∈ members.tagsAt j)
    (hhalf : f.halfEnd = false) (hend : endOfContents f.data = false) (hleft : f.left ≠ 0) :
    decodeMembers stack members.elements specs (fuel + 1) edx st f =
      ((e.1.type.berDecoder e.1.tagMode f.window).within f.sizeViolation).bind fun v used =>
        decodeMembers stack members.elements specs fuel (j + 1) (st.set j (some v))
          (f.advance used) := by
  have hj : j < members.length := (List.getElem?_eq_some_iff.mp he).1
  obtain ⟨e', he'⟩ : ∃ e', members[edx]? = some e' := ⟨_, List.getElem?_eq_getElem (by omega)⟩
  have hfind := ok.finds j hj edx hedx hopt tag htag
  rw [optionalAt_get he'] at hfind
  rw [decodeMembers]
  simp only [elements_get he', hleft, false_and, if_false, hfetch, Outcome.within_ok,
    Outcome.bind_ok, hhalf, Bool.false_eq_true, hend, and_false, hfind, elements_get he]

theorem decodeMembers_rest (ok : SequenceOk members specs) (hedx : edx ≤ members.length)
    (hopt : ∀ i < members.length, edx ≤ i → members.optionalAt i ≠ 0)
    (hes : Elements (UnknownTag members.elements specs) (Body stack) es)
    (hext : es = [] ∨ inExtensionGroup specs members.length = true) (hf : InFrame f es k)
    (hfuel : members.length - edx < fuel) :
    decodeMembers stack members.elements specs fuel edx st f =
      .ok st (f.consumed + es.length + k) := by
  obtain ⟨fuel, rfl⟩ : ∃ n, fuel = n + 1 := ⟨fuel - 1, by omega⟩
  have hphase3 : ∀ {es : List UInt8} {f : Frame},
      Elements (UnknownTag members.elements specs) (Body stack) es →
      (es = [] ∨ inExtensionGroup specs members.length = true) → InFrame f es k →
      ((skipRest stack (inExtensionGroup specs members.length) (f.data.length + 1) false f).bind
        fun _ n => .ok st n) = .ok st (f.consumed + es.length + k) := by
    intro es f hes hext hf
    rw [skipRest_complete hes hext hf (Nat.lt_succ_of_le hf.length_le), Outcome.bind_ok]
  obtain hlt | rfl := Nat.lt_or_eq_of_le hedx
  swap
  · rw [decodeMembers_end, hphase3 hes hext hf]
  obtain ⟨e, he⟩ : ∃ e, members[edx]? = some e := ⟨_, List.getElem?_eq_getElem hlt⟩
  have htrail := ok.trailing edx hlt hopt
  rw [optionalAt_get he] at htrail
  have hatEnd : edx + e.1.optional = members.elements.length ∨
      (inExtensionGroup specs edx = true ∧ (members.elements.length : ℤ) < specs.extBefore) :=
    .inl (by rw [length_elements, htrail])
  rw [decodeMembers]
  simp only [elements_get he, hatEnd, and_true]
  cases hes with
  | nil =>
      cases hf with
      | definite rest hl hd =>
          have h0 : f.left = 0 := hl
          rw [if_pos h0]
          rfl
      | indefinite rest hl hd =>
          have hw : f.window = 0 :: 0 :: rest := by
            rw [Frame.window, if_pos (by omega), hd]
            rfl
          have hfetch : berFetchTag (0 :: 0 :: rest) = .ok 0 1 := rfl
          have hhalf : f.halfEnd = false := by
            rw [Frame.halfEnd, hw, decide_eq_false_iff_not]
            rintro ⟨-, -, hlen⟩
            simp only [List.length_cons] at hlen
            omega
          have hend : f.left < 0 ∧ endOfContents f.data = true := by
            rw [hd]
            exact ⟨by omega, rfl⟩
          rw [if_neg (by omega), hw, hfetch, Outcome.within_ok, Outcome.bind_ok, hhalf,
            if_neg Bool.false_ne_true, if_pos hend, length_elements]
          exact hphase3 .nil hext (.indefinite rest hl hd)
  | @cons c tag h b es hi h0 htag hb hes =>
      have hpos : 0 < h.length := List.length_pos_of_ne_nil (hi.reads.ne_nil rfl)
      have hext' : inExtensionGroup specs members.length = true := by
        rcases hext with hnil | hext
        · have hh := (List.append_eq_nil_iff.mp (List.append_eq_nil_iff.mp hnil).1).1
          exact absurd hh (hi.reads.ne_nil rfl)
        · exact hext
      obtain ⟨⟨w, hw⟩, y, hd⟩ := hf.append
      rw [List.append_assoc] at hw hd
      obtain ⟨hhalf, hend⟩ := hi.not_end h0 hw hd
      have hne : f.left ≠ 0 := by
        cases hf with
        | definite rest hl _ =>
            simp only [List.length_append] at hl
            omega
        | indefinite rest hl _ => omega
      have hcons : berTlvConstructed f.data = c := by
        rw [hd]
        exact hi.constructed_append _
      have hadv := hf.advance
      rw [List.length_append, Nat.add_comm] at hadv
      obtain ⟨fuel, rfl⟩ : ∃ n, fuel = n + 1 := ⟨fuel - 1, by omega⟩
      rw [if_neg hne, hw, hi.reads.complete, Outcome.within_ok, Outcome.bind_ok, hhalf,
        if_neg Bool.false_ne_true, hend, if_neg (fun h => Bool.false_ne_true h.2),
        findMember_unknown htag]
      simp only [htrail, hext', Bool.true_eq_false, if_false, hcons, List.drop_left,
        hb.reads.complete, Outcome.within_ok, Outcome.bind_ok]
      rw [decodeMembers_end, hphase3 hes (.inr hext') hadv]
      show Outcome.ok st (f.consumed + (b.length + h.length) + es.length + k) = _
      simp only [List.length_append]
      congr 1
      omega

theorem decodeMembers_rest_cut (ok : SequenceOk members specs) (hedx : edx ≤ members.length)
    (hopt : ∀ i < members.length, edx ≤ i → members.optionalAt i ≠ 0)
    (hes : Elements (UnknownTag members.elements specs) (Body stack) es)
    (hext : es = [] ∨ inExtensionGroup specs members.length = true) (hf : CutFrame f es)
    (hfuel : members.length - edx < fuel) :
    decodeMembers stack members.elements specs fuel edx st f = .more := by
  obtain ⟨fuel, rfl⟩ : ∃ n, fuel = n + 1 := ⟨fuel - 1, by omega⟩
  have hphase3 : ∀ {es : List UInt8} {f : Frame},
      Elements (UnknownTag members.elements specs) (Body stack) es →
      (es = [] ∨ inExtensionGroup specs members.length = true) → CutFrame f es →
      ((skipRest stack (inExtensionGroup specs members.length) (f.data.length + 1) false f).bind
        fun _ n => (.ok st n : Outcome (List (Option Value)))) = .more := by
    intro es f hes hext hf
    rw [skipRest_cut hes hext hf (Nat.lt_succ_self _), Outcome.bind_more]
  obtain hlt | rfl := Nat.lt_or_eq_of_le hedx
  swap
  · rw [decodeMembers_end, hphase3 hes hext hf]
  have hviol := hf.not_sizeViolation
  obtain ⟨e, he⟩ : ∃ e, members[edx]? = some e := ⟨_, List.getElem?_eq_getElem hlt⟩
  have htrail := ok.trailing edx hlt hopt
  rw [optionalAt_get he] at htrail
  rw [decodeMembers]
  simp only [elements_get he, hf.left_ne_zero, false_and, if_false, hf.window]
  cases hes with
  | nil =>
      obtain ⟨hl, hd⟩ := hf.nil
      rcases hd with hd | hd
      · have hfetch : berFetchTag [] = .more := rfl
        rw [hd, hfetch, Outcome.within_more hviol, Outcome.bind_more]
      · have hfetch : berFetchTag [0] = .ok 0 1 := rfl
        have hhalf : f.halfEnd = true := by
          rw [Frame.halfEnd, hf.window, hd, decide_eq_true_eq]
          exact ⟨by omega, rfl, by decide⟩
        rw [hd, hfetch, Outcome.within_ok, Outcome.bind_ok, hhalf, if_pos rfl,
          Outcome.within_more hviol]
  | @cons c tag h b es hi h0 htag hb hes =>
      have hext' : inExtensionGroup specs members.length = true := by
        rcases hext with hnil | hext
        · have hh := (List.append_eq_nil_iff.mp (List.append_eq_nil_iff.mp hnil).1).1
          exact absurd hh (hi.reads.ne_nil rfl)
        · exact hext
      obtain ⟨fuel, rfl⟩ : ∃ n, fuel = n + 1 := ⟨fuel - 1, by omega⟩
      have hthere : ∀ p, f.data = h ++ p →
          berFetchTag f.data = .ok tag h.length ∧ f.data.drop h.length = p ∧
            berTlvConstructed f.data = c ∧ f.halfEnd = false ∧ endOfContents f.data = false := by
        intro p hd
        obtain ⟨hhalf, hend⟩ := hi.not_end h0 (hf.window.trans hd) hd
        refine ⟨?_, ?_, ?_, hhalf, hend⟩
        · rw [hd]
          exact hi.reads.complete p
        · rw [hd, List.drop_left]
        · rw [hd]
          exact hi.constructed_append _
      obtain ⟨r, hr, hp⟩ | ⟨p, hd, hf'⟩ := hf.append
      · obtain ⟨r', hr', hp'⟩ | ⟨p', hd, hp'⟩ := append_cut hp
        · rw [hi.reads.cut _ r' hr' hp', Outcome.within_more hviol, Outcome.bind_more]
        · obtain ⟨hrun, hdrop, hcons, hhalf, hend⟩ := hthere p' hd
          simp only [hrun, Outcome.within_ok, Outcome.bind_ok, hhalf, Bool.false_eq_true, hend,
            false_and, and_false, if_false, findMember_unknown htag, htrail, hext',
            Bool.true_eq_false, hcons, hdrop, hb.reads.cut p' r hr hp', Outcome.within_more hviol,
            Outcome.bind_more]
      · rw [List.append_assoc] at hd
        obtain ⟨hrun, hdrop, hcons, hhalf, hend⟩ := hthere (b ++ p) hd
        rw [List.length_append, Nat.add_comm] at hf'
        simp only [hrun, Outcome.within_ok, Outcome.bind_ok, hhalf, Bool.false_eq_true, hend,
          false_and, and_false, if_false, findMember_unknown htag, htrail, hext',
          Bool.true_eq_false, hcons, hdrop, hb.reads.complete]
        rw [decodeMembers_end, hphase3 hes (.inr hext') hf']

theorem InFrame.left_ne_zero {b c : List UInt8} (hf : InFrame f (b ++ c) k) (hb : b ≠ []) :
    f.left ≠ 0 := by
  have hpos := List.length_pos_of_ne_nil hb
  cases hf with
  | definite rest hl _ =>
      rw [List.length_append] at hl
      omega
  | indefinite rest hl _ => omega

theorem set_next (done : List (Option Value)) (v : Option Value) (n : ℕ) :
    (done ++ List.replicate (n + 1) none).set done.length v =
      (done ++ [v]) ++ List.replicate n none := by
  rw [List.set_append_right _ _ le_rfl, Nat.sub_self, List.replicate_succ, List.set_cons_zero,
    List.append_assoc]
  rfl

theorem replicate_next (done : List (Option Value)) (n : ℕ) :
    done ++ List.replicate (n + 1) none = (done ++ [none]) ++ List.replicate n none := by
  rw [List.replicate_succ, List.append_assoc]
  rfl

theorem getElem?_split {pre post : Members} (hsplit : members = pre ++ e :: post) :
    members[pre.length]? = some e := by
  rw [hsplit, List.getElem?_append_right le_rfl, Nat.sub_self]
  rfl

theorem optional_next {pre post : Members} (hsplit : members = pre ++ e :: post)
    (hopt : ∀ i < pre.length, edx ≤ i → members.optionalAt i ≠ 0) (he : e.1.optional ≠ 0) :
    ∀ i < (pre ++ [e]).length, edx ≤ i → members.optionalAt i ≠ 0 := by
  intro i hi hle
  rw [List.length_append, List.length_singleton] at hi
  obtain hlt | rfl := Nat.lt_or_eq_of_le (Nat.le_of_lt_succ hi)
  · exact hopt i hlt hle
  · rwa [optionalAt_get (getElem?_split hsplit)]

/-- **One member is read**, whichever optional ones are absent before it. -/
theorem decodeMembers_next (ok : SequenceOk members specs) (himp : Implements e.1.type e.2)
    (he : members[j]? = some e) (hedx : edx ≤ j)
    (hopt : ∀ i < j, edx ≤ i → members.optionalAt i ≠ 0) {v : Value} {b c : List UInt8}
    (henc : e.2.Encodes e.1.tagMode e.1.tag v b) (hf : InFrame f (b ++ c) k) :
    decodeMembers stack members.elements specs (fuel + 1) edx st f =
      decodeMembers stack members.elements specs fuel (j + 1) (st.set j (some v))
        (f.advance b.length) := by
  obtain ⟨form, tag, h, r, hb, hi, h0, htag⟩ := himp.begins henc
  rw [← tagsAt_get he] at htag
  obtain ⟨⟨w, hw⟩, y, hd⟩ := hf.append
  have hfetch : berFetchTag f.window = .ok tag h.length := by
    rw [hw, hb, List.append_assoc]
    exact hi.reads.complete _
  obtain ⟨hhalf, hend⟩ := hi.not_end (w := r ++ w) (y := r ++ y) h0
    (by rw [hw, hb, List.append_assoc]) (by rw [hd, hb, List.append_assoc])
  have hne : b ≠ [] := by
    rw [hb]
    exact fun hnil => hi.reads.ne_nil rfl (List.append_eq_nil_iff.mp hnil).1
  rw [decodeMembers_found ok he hedx hopt hfetch htag hhalf hend (hf.left_ne_zero hne), hw,
    (himp.reads henc).complete, Outcome.within_ok, Outcome.bind_ok]

variable {pre post : Members} {vs done : List (Option Value)} {body : List UInt8}

/-- **The loop reads the members that are there**, from any place that the ones before the next
could have been left at. -/
theorem decodeMembers_complete (ok : SequenceOk members specs)
    (himp : ∀ e ∈ members, Implements e.1.type e.2) (hsplit : members = pre ++ post)
    (hc : Contents post vs body)
    (hes : Elements (UnknownTag members.elements specs) (Body stack) es)
    (hext : es = [] ∨ inExtensionGroup specs members.length = true)
    (hdone : done.length = pre.length) (hedx : edx ≤ pre.length)
    (hopt : ∀ i < pre.length, edx ≤ i → members.optionalAt i ≠ 0)
    (hf : InFrame f (body ++ es) k) (hfuel : members.length - edx < fuel) :
    decodeMembers stack members.elements specs fuel edx (done ++ List.replicate post.length none)
      f = .ok (done ++ vs) (f.consumed + (body ++ es).length + k) := by
  induction post generalizing pre vs body done edx f fuel with
  | nil =>
      cases vs with
      | cons v vs => exact absurd hc id
      | nil =>
          obtain rfl : body = [] := hc
          rw [List.append_nil] at hsplit
          rw [← hsplit] at hopt hedx
          exact decodeMembers_rest ok hedx hopt hes hext hf hfuel
  | cons e post ih =>
      have hsplit' : members = (pre ++ [e]) ++ post := by
        rw [hsplit, List.append_assoc]
        rfl
      have hlen : ∀ w : Option Value, (done ++ [w]).length = (pre ++ [e]).length := by
        intro w
        rw [List.length_append, List.length_append, hdone]
        rfl
      have hget := getElem?_split hsplit
      cases vs with
      | nil => exact absurd hc id
      | cons v vs =>
          cases v with
          | none =>
              -- an optional member that is absent: the loop stays where it is
              obtain ⟨hne, hc⟩ := hc
              have hedx' : edx ≤ (pre ++ [e]).length := by
                rw [List.length_append]
                omega
              rw [List.length_cons, replicate_next,
                ih hsplit' hc (hlen none) hedx' (optional_next hsplit hopt hne) hf hfuel,
                List.append_assoc]
              rfl
          | some v =>
              obtain ⟨b₁, b₂, rfl, henc, hc⟩ := hc
              obtain ⟨fuel, rfl⟩ : ∃ n, fuel = n + 1 := ⟨fuel - 1, by omega⟩
              rw [List.append_assoc] at hf
              rw [decodeMembers_next ok (himp e (by rw [hsplit]; simp)) hget hedx hopt henc hf,
                ← hdone, List.length_cons, set_next, hdone]
              have hnext : pre.length + 1 = (pre ++ [e]).length := by
                rw [List.length_append]
                rfl
              have hmax := congrArg List.length hsplit
              rw [List.length_append, List.length_cons] at hmax
              rw [ih hsplit' hc (hlen (some v)) (le_of_eq hnext) (by omega) hf.advance (by omega),
                List.append_assoc]
              simp only [Frame.advance, List.length_append]
              congr 1
              omega

/-- A member of which its tag has arrived is found. -/
theorem decodeMembers_arrived (ok : SequenceOk members specs) (he : members[j]? = some e)
    (hedx : edx ≤ j) (hopt : ∀ i < j, edx ≤ i → members.optionalAt i ≠ 0)
    {h p c : List UInt8} {form : Bool} (hf : CutFrame f c) (hi : Identifier form tag h) (h0 : tag ≠ 0)
    (htag : tag ∈ members.tagsAt j) (hd : f.data = h ++ p) :
    decodeMembers stack members.elements specs (fuel + 1) edx st f =
      ((e.1.type.berDecoder e.1.tagMode f.data).within f.sizeViolation).bind fun v used =>
        decodeMembers stack members.elements specs fuel (j + 1) (st.set j (some v))
          (f.advance used) := by
  obtain ⟨hhalf, hend⟩ := hi.not_end h0 (hf.window.trans hd) hd
  have hfetch : berFetchTag f.window = .ok tag h.length := by
    rw [hf.window, hd]
    exact hi.reads.complete p
  rw [decodeMembers_found ok he hedx hopt hfetch htag hhalf hend hf.left_ne_zero, hf.window]

/-- One member that may be cut: the loop asks for more, or it has read the member. -/
theorem decodeMembers_next_cut (ok : SequenceOk members specs) (himp : Implements e.1.type e.2)
    (he : members[j]? = some e) (hedx : edx ≤ j)
    (hopt : ∀ i < j, edx ≤ i → members.optionalAt i ≠ 0) {v : Value} {b c : List UInt8}
    (henc : e.2.Encodes e.1.tagMode e.1.tag v b) (hf : CutFrame f (b ++ c)) :
    decodeMembers stack members.elements specs (fuel + 1) edx st f = .more ∨
      CutFrame (f.advance b.length) c ∧
        decodeMembers stack members.elements specs (fuel + 1) edx st f =
          decodeMembers stack members.elements specs fuel (j + 1) (st.set j (some v))
            (f.advance b.length) := by
  obtain ⟨form, tag, h, r, hb, hi, h0, htag⟩ := himp.begins henc
  rw [← tagsAt_get he] at htag
  have hj : j < members.length := (List.getElem?_eq_some_iff.mp he).1
  have hviol := hf.not_sizeViolation
  obtain ⟨q, hq, hcut⟩ | ⟨p, hd, hf'⟩ := hf.append
  · left
    rw [hb] at hcut
    obtain ⟨q', hq', hcut'⟩ | ⟨p', hd, hcut'⟩ := append_cut hcut
    · -- not even the tag is there
      obtain ⟨e', he'⟩ : ∃ e', members[edx]? = some e' := ⟨_, List.getElem?_eq_getElem (by omega)⟩
      rw [decodeMembers]
      simp only [elements_get he', hf.left_ne_zero, false_and, if_false, hf.window,
        hi.reads.cut _ q' hq' hcut', Outcome.within_more hviol, Outcome.bind_more]
    · rw [← hb] at hcut
      rw [decodeMembers_arrived ok he hedx hopt hf hi h0 htag hd,
        (himp.reads henc).cut _ q hq hcut, Outcome.within_more hviol, Outcome.bind_more]
  · have hd' : f.data = h ++ (r ++ p) := by rw [hd, hb, List.append_assoc]
    refine .inr ⟨hf', ?_⟩
    rw [decodeMembers_arrived ok he hedx hopt hf hi h0 htag hd', hd,
      (himp.reads henc).complete, Outcome.within_ok, Outcome.bind_ok]

/-- **It asks for more** when some of that is missing. -/
theorem decodeMembers_cut (ok : SequenceOk members specs)
    (himp : ∀ e ∈ members, Implements e.1.type e.2) (hsplit : members = pre ++ post)
    (hc : Contents post vs body)
    (hes : Elements (UnknownTag members.elements specs) (Body stack) es)
    (hext : es = [] ∨ inExtensionGroup specs members.length = true)
    (hdone : done.length = pre.length) (hedx : edx ≤ pre.length)
    (hopt : ∀ i < pre.length, edx ≤ i → members.optionalAt i ≠ 0)
    (hf : CutFrame f (body ++ es)) (hfuel : members.length - edx < fuel) :
    decodeMembers stack members.elements specs fuel edx (done ++ List.replicate post.length none)
      f = .more := by
  induction post generalizing pre vs body done edx f fuel with
  | nil =>
      cases vs with
      | cons v vs => exact absurd hc id
      | nil =>
          obtain rfl : body = [] := hc
          rw [List.append_nil] at hsplit
          rw [← hsplit] at hopt hedx
          exact decodeMembers_rest_cut ok hedx hopt hes hext hf hfuel
  | cons e post ih =>
      have hsplit' : members = (pre ++ [e]) ++ post := by
        rw [hsplit, List.append_assoc]
        rfl
      have hlen : ∀ w : Option Value, (done ++ [w]).length = (pre ++ [e]).length := by
        intro w
        rw [List.length_append, List.length_append, hdone]
        rfl
      have hget := getElem?_split hsplit
      cases vs with
      | nil => exact absurd hc id
      | cons v vs =>
          cases v with
          | none =>
              obtain ⟨hne, hc⟩ := hc
              have hedx' : edx ≤ (pre ++ [e]).length := by
                rw [List.length_append]
                omega
              rw [List.length_cons, replicate_next]
              exact ih hsplit' hc (hlen none) hedx' (optional_next hsplit hopt hne) hf hfuel
          | some v =>
              obtain ⟨b₁, b₂, rfl, henc, hc⟩ := hc
              obtain ⟨fuel, rfl⟩ : ∃ n, fuel = n + 1 := ⟨fuel - 1, by omega⟩
              rw [List.append_assoc] at hf
              have hmax := congrArg List.length hsplit
              rw [List.length_append, List.length_cons] at hmax
              obtain hmore | ⟨hf', hnext⟩ := decodeMembers_next_cut ok
                (himp e (by rw [hsplit]; simp)) hget hedx hopt henc hf
              · exact hmore
              · rw [hnext, ← hdone, List.length_cons, set_next, hdone]
                have hpre : pre.length + 1 = (pre ++ [e]).length := by
                  rw [List.length_append]
                  rfl
                exact ih hsplit' hc (hlen (some v)) (le_of_eq hpre) (by omega) hf' (by omega)

end loop

/-! ### Whatever is in the buffer -/

section bounds

variable {stack fuel edx j k n tag own : ℕ} {members : Members} {specs : SequenceSpecs}
  {st st' : List (Option Value)} {f : Frame} {ext phase4 : Bool}

theorem Frame.window_le (f : Frame) : f.window.length ≤ f.data.length := by
  unfold Frame.window
  split_ifs
  · exact le_rfl
  · exact List.length_take_le' _ _

theorem endOfContents_length {l : List UInt8} (h : endOfContents l = true) : 2 ≤ l.length := by
  unfold endOfContents at h
  split at h
  · simp only [List.length_cons]
    omega
  · cases h

theorem skipRest_bounds (h : skipRest stack ext fuel phase4 f = .ok () k) :
    f.consumed ≤ k ∧ k ≤ f.consumed + f.data.length := by
  induction fuel generalizing phase4 f with
  | zero => cases h
  | succ fuel ih =>
      rw [skipRest] at h
      by_cases hleft : f.left = 0
      · rw [if_pos hleft] at h
        cases h
        exact ⟨le_rfl, Nat.le_add_right _ _⟩
      · rw [if_neg hleft] at h
        obtain ⟨tag, tl, hfetch, h⟩ := Outcome.bind_eq_ok h
        have htl := fetchTag_bounds (Outcome.within_eq_ok hfetch)
        have hwin := f.window_le
        split_ifs at h with hhalf hend
        · cases Outcome.within_eq_ok h
        · have hlen := endOfContents_length hend.2
          have := ih h
          simp only [Frame.advance, List.length_drop] at this
          omega
        · obtain ⟨_, ll, hskip, h⟩ := Outcome.bind_eq_ok h
          have hll := skipLength_bounds (Outcome.within_eq_ok hskip)
          have := ih h
          simp only [Frame.advance, List.length_drop] at this hll
          omega

theorem skipRest_ne_hang (hfuel : f.data.length < fuel) :
    skipRest stack ext fuel phase4 f ≠ .hang := by
  induction fuel generalizing phase4 f with
  | zero => omega
  | succ fuel ih =>
      intro h
      rw [skipRest] at h
      by_cases hleft : f.left = 0
      · rw [if_pos hleft] at h
        cases h
      rw [if_neg hleft] at h
      obtain h | ⟨tag, tl, hfetch, h⟩ := Outcome.bind_eq_hang h
      · exact returns_fetchTag _ (Outcome.within_eq_hang h)
      · have htl := fetchTag_bounds (Outcome.within_eq_ok hfetch)
        have hwin := f.window_le
        split_ifs at h with hhalf hend
        · cases Outcome.within_eq_hang h
        · refine ih ?_ h
          simp only [Frame.advance, List.length_drop]
          omega
        · obtain h | ⟨_, ll, hskip, h⟩ := Outcome.bind_eq_hang h
          · exact returns_skipLength _ _ _ (Outcome.within_eq_hang h)
          · refine ih ?_ h
            simp only [Frame.advance, List.length_drop]
            omega

/-- What the loop has done up to member `edx`: the mandatory members before it are there, and what
is there was decoded. -/
structure Progress (members : Members) (edx : ℕ) (st : List (Option Value)) : Prop where
  length : st.length = members.length
  mandatory : ∀ i < edx, st[i]? = some none → members.optionalAt i ≠ 0
  decoded : ∀ (i : ℕ) (e : Member × BerType) (v : Value), members[i]? = some e →
    st[i]? = some (some v) →
    ∃ data n, e.1.type.berDecoder e.1.tagMode data = .ok v n

theorem Progress.pass (hp : Progress members edx st)
    (hopt : ∀ i < members.length, edx ≤ i → i < n → members.optionalAt i ≠ 0) :
    Progress members n st := by
  refine ⟨hp.length, fun i hi hnone => ?_, hp.decoded⟩
  obtain hlt | hle := Nat.lt_or_ge i edx
  · exact hp.mandatory i hlt hnone
  · have hi' : i < st.length := (List.getElem?_eq_some_iff.mp hnone).1
    exact hopt i (hp.length ▸ hi') hle hi

theorem Progress.set {e : Member × BerType} {v : Value} {data : List UInt8}
    (hp : Progress members n st) (he : members[n]? = some e)
    (hdec : e.1.type.berDecoder e.1.tagMode data = .ok v k) :
    Progress members (n + 1) (st.set n (some v)) := by
  refine ⟨by rw [List.length_set, hp.length], fun i hi hnone => ?_, fun i e' w he' hw => ?_⟩
  · rw [List.getElem?_set] at hnone
    split_ifs at hnone with hni hlt
    · cases hnone
    · exact hp.mandatory i (by omega) hnone
  · rw [List.getElem?_set] at hw
    split_ifs at hw with hni hlt
    · obtain rfl : v = w := Option.some.inj (Option.some.inj hw)
      rw [← hni, he] at he'
      obtain rfl := Option.some.inj he'
      exact ⟨data, k, hdec⟩
    · exact hp.decoded i e' w he' hw

/-- **What the loop makes is complete**, and no longer than what is there. -/
theorem decodeMembers_sound (ok : SequenceOk members specs)
    (hbound : ∀ e ∈ members, ∀ data v n, e.1.type.berDecoder e.1.tagMode data = .ok v n →
      n ≤ data.length)
    (hp : Progress members edx st)
    (h : decodeMembers stack members.elements specs fuel edx st f = .ok st' k) :
    Progress members members.length st' ∧ f.consumed ≤ k ∧
      k ≤ f.consumed + f.data.length := by
  induction fuel generalizing edx st f with
  | zero => cases h
  | succ fuel ih =>
      have hphase3 : Progress members members.length st →
          ((skipRest stack (inExtensionGroup specs members.length) (f.data.length + 1)
            false f).bind fun _ n => .ok st n) = .ok st' k →
          Progress members members.length st' ∧ f.consumed ≤ k ∧
            k ≤ f.consumed + f.data.length := by
        intro hend h
        obtain ⟨_, n, hskip, h⟩ := Outcome.bind_eq_ok h
        cases h
        exact ⟨hend, skipRest_bounds hskip⟩
      rw [decodeMembers, length_elements] at h
      dsimp only at h
      split at h
      · rename_i hnone
        rw [List.getElem?_eq_none_iff, length_elements] at hnone
        exact hphase3 (hp.pass fun i hi hle hlt => by omega) h
      · rename_i e he
        obtain ⟨e', he', rfl⟩ : ∃ e', members[edx]? = some e' ∧ e'.1 = e := by
          rw [Members.elements, List.getElem?_map, Option.map_eq_some_iff] at he
          exact he
        have hlt : edx < members.length := (List.getElem?_eq_some_iff.mp he').1
        rw [← optionalAt_get he'] at h
        -- where the structure may end, only optional members are left
        have hatEnd : (edx + members.optionalAt edx = members.length ∨
            (inExtensionGroup specs edx = true ∧ (members.length : ℤ) < specs.extBefore)) →
            Progress members members.length st := by
          rintro (hend | ⟨hgroup, hext⟩)
          · exact hp.pass fun i hi hle _ => ok.counts i hi edx hle (by omega)
          · rw [inExtensionGroup, decide_eq_true_eq] at hgroup
            exact hp.pass fun i hi hle _ => ok.extensions hext i hi (by omega)
        by_cases hdone : f.left = 0 ∧ (edx + members.optionalAt edx = members.length ∨
            (inExtensionGroup specs edx = true ∧ (members.length : ℤ) < specs.extBefore))
        · rw [if_pos hdone] at h
          cases h
          exact ⟨hatEnd hdone.2, le_rfl, Nat.le_add_right _ _⟩
        · rw [if_neg hdone] at h
          obtain ⟨tag, tl, hfetch, h⟩ := Outcome.bind_eq_ok h
          have htl := fetchTag_bounds (Outcome.within_eq_ok hfetch)
          have hwin := f.window_le
          split at h
          · cases Outcome.within_eq_ok h
          split at h
          · rename_i hend
            exact hphase3 (hatEnd hend.2.2) h
          · split at h
            · rename_i n hfind
              obtain ⟨hlo, hhi⟩ := findMember_bounds hfind
              split at h
              · cases h
              · rename_i m hm
                obtain ⟨m', hm', rfl⟩ : ∃ m', members[n]? = some m' ∧ m'.1 = m := by
                  rw [Members.elements, List.getElem?_map, Option.map_eq_some_iff] at hm
                  exact hm
                obtain ⟨v, used, hdec, h⟩ := Outcome.bind_eq_ok h
                have hdec := Outcome.within_eq_ok hdec
                have hused := hbound m' (List.mem_of_getElem? hm') _ _ _ hdec
                have hpn := hp.pass (n := n) fun i hi hle hlt' =>
                  ok.counts i hi edx hle (by omega)
                obtain ⟨hpst, hk⟩ := ih (hpn.set hm' hdec) h
                refine ⟨hpst, ?_⟩
                simp only [Frame.advance, List.length_drop] at hk
                omega
            · split_ifs at h
              obtain ⟨_, skip, hskip, h⟩ := Outcome.bind_eq_ok h
              have hll := skipLength_bounds (Outcome.within_eq_ok hskip)
              obtain ⟨hpst, hk⟩ := ih (hp.pass fun i hi hle hlt' =>
                ok.counts i hi edx hle hlt') h
              refine ⟨hpst, ?_⟩
              simp only [Frame.advance, List.length_drop] at hk hll
              omega

/-- **Where the decoder hangs, that of a member hangs** on octets that are there. -/
theorem decodeMembers_hang (hfuel : (members.length - edx) + f.data.length < fuel)
    (h : decodeMembers stack members.elements specs fuel edx st f = .hang) :
    ∃ e ∈ members, ∃ data, data <:+: f.data ∧
      e.1.type.berDecoder e.1.tagMode data = .hang := by
  induction fuel generalizing edx st f with
  | zero => omega
  | succ fuel ih =>
      have hphase3 : ((skipRest stack (inExtensionGroup specs members.length) (f.data.length + 1)
          false f).bind fun _ n => Outcome.ok st n) ≠ .hang := by
        intro h
        obtain h | ⟨_, n, -, h⟩ := Outcome.bind_eq_hang h
        · exact skipRest_ne_hang (Nat.lt_succ_self _) h
        · cases h
      rw [decodeMembers, length_elements] at h
      dsimp only at h
      split at h
      · exact absurd h hphase3
      · rename_i e he
        have hlt : edx < members.length := by
          rw [← length_elements]
          exact (List.getElem?_eq_some_iff.mp he).1
        by_cases hdone : f.left = 0 ∧ (edx + e.optional = members.length ∨
            (inExtensionGroup specs edx = true ∧ (members.length : ℤ) < specs.extBefore))
        · rw [if_pos hdone] at h
          cases h
        rw [if_neg hdone] at h
        obtain h | ⟨tag, tl, hfetch, h⟩ := Outcome.bind_eq_hang h
        · exact absurd (Outcome.within_eq_hang h) (returns_fetchTag _)
        · have htl := fetchTag_bounds (Outcome.within_eq_ok hfetch)
          have hwin := f.window_le
          split at h
          · cases Outcome.within_eq_hang h
          split at h
          · exact absurd h hphase3
          · split at h
            · rename_i n hfind
              obtain ⟨hlo, hhi⟩ := findMember_bounds hfind
              split at h
              · cases h
              · rename_i m hm
                obtain ⟨m', hm', rfl⟩ : ∃ m', members[n]? = some m' ∧ m'.1 = m := by
                  rw [Members.elements, List.getElem?_map, Option.map_eq_some_iff] at hm
                  exact hm
                have hn : n < members.length := (List.getElem?_eq_some_iff.mp hm').1
                obtain h | ⟨v, used, -, h⟩ := Outcome.bind_eq_hang h
                · refine ⟨m', List.mem_of_getElem? hm', f.window, ?_, Outcome.within_eq_hang h⟩
                  unfold Frame.window
                  split_ifs
                  · exact List.infix_rfl
                  · exact (List.take_prefix _ _).isInfix
                · have hlen : (f.advance used).data.length ≤ f.data.length := by
                    rw [Frame.advance, List.length_drop]
                    omega
                  obtain ⟨e, he, data, hdata, hhang⟩ := ih (by omega) h
                  exact ⟨e, he, data, hdata.trans (List.drop_suffix _ _).isInfix, hhang⟩
            · split_ifs at h
              obtain h | ⟨_, skip, hskip, h⟩ := Outcome.bind_eq_hang h
              · exact absurd (Outcome.within_eq_hang h) (returns_skipLength _ _ _)
              · have hlen : (f.advance (skip + tl)).data.length < f.data.length := by
                  rw [Frame.advance, List.length_drop]
                  omega
                obtain ⟨e, he, data, hdata, hhang⟩ := ih (by omega) h
                exact ⟨e, he, data, hdata.trans (List.drop_suffix _ _).isInfix, hhang⟩

end bounds

/-! ### SEQUENCE types -/

section sequences

variable {stack own n t : ℕ} {members : Members} {specs : SequenceSpecs} {m : TagMode}
  {st : List (Option Value)} {bs : List UInt8} {e : Member × BerType}

/-- **Both passes over the members agree**, where the first one finds all that must be there. -/
theorem writeMembers_emits (himp : ∀ e ∈ members, Implements e.1.type e.2)
    (hadm : ∀ e ∈ members, e.2.Admits e.1.tagMode e.1.tag)
    (hest : estimateMembers members.elements st = some n) :
    ∃ bs, bs.length = n ∧ Emits (writeMembers members.elements st) bs ∧
      (bs.length + 1024 < 2 ^ 63 → Contents members (canonMembers st) bs) := by
  induction members generalizing st n with
  | nil =>
      cases st with
      | nil =>
          cases hest
          exact ⟨[], rfl, emits_nil, fun _ => rfl⟩
      | cons v st => cases hest
  | cons e members ih =>
      have himp' : ∀ e ∈ members, Implements e.1.type e.2 :=
        fun e' he' => himp e' (List.mem_cons_of_mem _ he')
      have hadm' : ∀ e ∈ members, e.2.Admits e.1.tagMode e.1.tag :=
        fun e' he' => hadm e' (List.mem_cons_of_mem _ he')
      cases st with
      | nil => cases hest
      | cons v st =>
          cases v with
          | none =>
              rw [Members.elements, List.map_cons, estimateMembers] at hest
              split_ifs at hest with hopt
              obtain ⟨bs, hlen, hw, hc⟩ := ih himp' hadm' hest
              refine ⟨bs, hlen, ?_, fun hmax => ⟨hopt.2, hc hmax⟩⟩
              rw [Members.elements, List.map_cons, writeMembers, if_pos hopt.1]
              exact hw
          | some v =>
              rw [Members.elements, List.map_cons, estimateMembers,
                Option.bind_eq_some_iff] at hest
              obtain ⟨r, hr, hest⟩ := hest
              rw [Option.map_eq_some_iff] at hest
              obtain ⟨k, hk, rfl⟩ := hest
              obtain ⟨b₂, hlen, hw, hc⟩ := ih himp' hadm' hk
              obtain href | ⟨b₁, hb₁, henc⟩ := (himp e List.mem_cons_self).encodes v
                (hadm e List.mem_cons_self)
              · rw [href none] at hr
                cases hr
              · rw [hb₁.estimate] at hr
                cases hr
                refine ⟨b₁ ++ b₂, by rw [List.length_append, hlen], hb₁.and hw, fun hmax => ?_⟩
                rw [List.length_append] at hmax
                exact ⟨b₁, b₂, rfl, henc (by omega), hc (by omega)⟩

theorem sequenceEncodeDer_emits {elements : List Member} {body : List UInt8}
    (hest : estimateMembers elements st = some body.length)
    (hw : Emits (writeMembers elements st) body) (tags : List ℕ) (m : TagMode) (t : ℕ) :
    Emits (sequenceEncodeDer tags elements (.struct st) m t)
      (tagOctets body.length true (writtenTags tags m t) ++ body) := by
  have htags := derWriteTags_emits tags body.length m true t
  constructor
  · rw [sequenceEncodeDer, hest, Option.bind_some, htags.estimate, Option.bind_some,
      List.length_append, Nat.add_comm]
  · intro arg
    rw [sequenceEncodeDer, hest, Option.bind_some, htags.write, encodeToBufferCb_append,
      List.length_append]
    cases encodeToBufferCb (tagOctets body.length true (writtenTags tags m t)) arg with
    | none => rfl
    | some arg' =>
        rw [Option.map_some, Option.bind_some]
        simp only [Option.bind_some, hw.write, Option.bind_map]
        cases encodeToBufferCb body arg' with
        | none => rfl
        | some arg'' => simp [Nat.add_comm]

/-- A structure in which nothing is missing is accepted by the first pass. -/
theorem estimateMembers_progress (himp : ∀ e ∈ members, Implements e.1.type e.2)
    (hadm : ∀ e ∈ members, e.2.Admits e.1.tagMode e.1.tag)
    (hptr : ∀ e ∈ members, e.1.optional ≠ 0 → e.1.pointer = true)
    (hp : Progress members members.length st) (hknown : knownMembers st = true) :
    ∃ n, estimateMembers members.elements st = some n := by
  induction members generalizing st with
  | nil =>
      obtain rfl := List.length_eq_zero_iff.mp hp.length
      exact ⟨0, rfl⟩
  | cons e members ih =>
      cases st with
      | nil => cases hp.length
      | cons v st =>
          rw [knownMembers, Bool.and_eq_true] at hknown
          have hp' : Progress members members.length st := by
            refine ⟨Nat.succ.inj hp.length, fun i hi hnone => ?_, fun i e' w he' hw =>
              hp.decoded (i + 1) e' w he' hw⟩
            exact hp.mandatory (i + 1) (Nat.succ_lt_succ hi) hnone
          obtain ⟨n, hn⟩ := ih (fun e' he' => himp e' (List.mem_cons_of_mem _ he'))
            (fun e' he' => hadm e' (List.mem_cons_of_mem _ he'))
            (fun e' he' => hptr e' (List.mem_cons_of_mem _ he')) hp' hknown.2
          rw [Members.elements] at hn ⊢
          cases v with
          | none =>
              have hopt : e.1.optional ≠ 0 := hp.mandatory 0 (Nat.succ_pos _) rfl
              rw [List.map_cons, estimateMembers,
                if_pos ⟨hptr e List.mem_cons_self hopt, hopt⟩]
              exact ⟨n, hn⟩
          | some v =>
              obtain ⟨data, k, hdec⟩ := hp.decoded 0 e v rfl rfl
              have hadme := hadm e List.mem_cons_self
              obtain ⟨bs, hbs⟩ := ((himp e List.mem_cons_self).decoded hadme hdec).2 hknown.1 _ _
                hadme
              rw [List.map_cons, estimateMembers, hbs.estimate, Option.bind_some, hn]
              exact ⟨bs.length + n, rfl⟩

/-- The loop over the members begins behind the header, in a frame with the contents. -/
theorem sequence_complete {elements : List Member} {c : List UInt8} (hm : SingleTag m t)
    (hb : Constructed (outerTag own m t) c bs) (rest : List UInt8) :
    ∃ f k, InFrame f c k ∧ f.consumed + c.length + k = bs.length ∧
      (sequence stack [own] elements specs).berDecoder m (bs ++ rest) =
        (decodeMembers stack elements specs (elements.length + (bs ++ rest).length + 1) 0
          (List.replicate elements.length none) f).bind fun st n => .ok (.struct st) n := by
  obtain ⟨x, he, hx⟩ := expectedTags_single own hm
  show ∃ f k, _ ∧ _ ∧ sequenceDecodeBer stack [own] elements specs m (bs ++ rest) = _
  cases hb with
  | @definite h l hi hl =>
      have hhead := checkTags_definite hi hl hx (.inr rfl : some true = none ∨ _)
      rw [← he] at hhead
      refine ⟨⟨c ++ rest, c.length, (h ++ l).length⟩, 0, .definite rest rfl rfl, ?_, ?_⟩
      · rw [Nat.add_zero]
        exact List.length_append.symm
      · rw [List.append_assoc (h ++ l), sequenceDecodeBer, berCheckTags, hhead.complete,
          Outcome.bind_ok, List.drop_left]
  | @indefinite h hi =>
      have hhead := checkTags_indefinite hi hx (.inr rfl : some true = none ∨ _)
      rw [← he] at hhead
      refine ⟨⟨(c ++ [0, 0]) ++ rest, -1, (h ++ [0x80]).length⟩, 2, .indefinite rest rfl ?_, ?_, ?_⟩
      · rw [List.append_assoc]
        rfl
      · simp only [List.length_append, List.length_cons, List.length_nil, Nat.add_assoc]
      · rw [List.append_assoc (h ++ [0x80]), sequenceDecodeBer, berCheckTags, hhead.complete,
          Outcome.bind_ok, List.drop_left]

/-- While some of the encoding is missing, that is the header or some of the contents. -/
theorem sequence_cut {elements : List Member} {c : List UInt8} (hm : SingleTag m t)
    (hb : Constructed (outerTag own m t) c bs) (p q : List UInt8) (hq : q ≠ [])
    (hpq : p ++ q = bs) :
    (sequence stack [own] elements specs).berDecoder m p = .more ∨ ∃ f, CutFrame f c ∧
      (sequence stack [own] elements specs).berDecoder m p =
        (decodeMembers stack elements specs (elements.length + p.length + 1) 0
          (List.replicate elements.length none) f).bind fun st n => .ok (.struct st) n := by
  obtain ⟨x, he, hx⟩ := expectedTags_single own hm
  show sequenceDecodeBer stack [own] elements specs m p = _ ∨
    ∃ f, _ ∧ sequenceDecodeBer stack [own] elements specs m p = _
  rw [sequenceDecodeBer, berCheckTags]
  cases hb with
  | @definite h l hi hl =>
      have hhead := checkTags_definite hi hl hx (.inr rfl : some true = none ∨ _)
      rw [← he] at hhead
      obtain ⟨r, hr, hp⟩ | ⟨p', rfl, hp'⟩ := append_cut hpq
      · rw [hhead.cut p r hr hp, Outcome.bind_more]
        exact .inl rfl
      · refine .inr ⟨⟨p', c.length, (h ++ l).length⟩, .definite q hq rfl hp', ?_⟩
        rw [hhead.complete, Outcome.bind_ok, List.drop_left]
  | @indefinite h hi =>
      have hhead := checkTags_indefinite hi hx (.inr rfl : some true = none ∨ _)
      rw [← he] at hhead
      obtain ⟨r, hr, hp⟩ | ⟨p', rfl, hp'⟩ := append_cut hpq
      · rw [hhead.cut p r hr hp, Outcome.bind_more]
        exact .inl rfl
      · refine .inr ⟨⟨p', -1, (h ++ [0x80]).length⟩, .indefinite q hq rfl hp', ?_⟩
        rw [hhead.complete, Outcome.bind_ok, List.drop_left]

/-- **A SEQUENCE type**, given its tables and its members' types. -/
theorem sequence_implements (hown : IsTag own) (ok : SequenceOk members specs)
    (himp : ∀ e ∈ members, Implements e.1.type e.2)
    (hadm : ∀ e ∈ members, e.2.Admits e.1.tagMode e.1.tag) :
    Implements (sequence stack [own] members.elements specs)
      (.sequence stack own members specs) where
  reads := by
    rintro m t v bs ⟨hm, vs, body, es, rfl, hc, hes, hext, hb⟩
    have hsplit : members = [] ++ members := rfl
    have hdone : ([] : List (Option Value)).length = ([] : Members).length := rfl
    have hnone : ∀ i < ([] : Members).length, 0 ≤ i → members.optionalAt i ≠ 0 :=
      fun i hi => absurd hi (Nat.not_lt_zero i)
    constructor
    · intro rest
      obtain ⟨f, k, hf, hlen, hrun⟩ := sequence_complete hm hb rest
      have hfuel : members.length - 0 < members.length + (bs ++ rest).length + 1 := by omega
      have hloop := decodeMembers_complete ok himp hsplit hc hes hext hdone (Nat.zero_le _) hnone
        hf hfuel
      rw [List.nil_append, List.nil_append] at hloop
      rw [hrun, length_elements, ← hlen, hloop, Outcome.bind_ok]
    · intro p q hq hpq
      obtain hrun | ⟨f, hf, hrun⟩ := sequence_cut hm hb p q hq hpq
      · exact hrun
      · have hfuel : members.length - 0 < members.length + p.length + 1 := by omega
        have hloop := decodeMembers_cut ok himp hsplit hc hes hext hdone (Nat.zero_le _) hnone hf
          hfuel
        rw [List.nil_append] at hloop
        rw [hrun, length_elements, hloop, Outcome.bind_more]
  begins := by
    rintro m t v bs ⟨hm, vs, body, es, rfl, hc, hes, hext, hb⟩
    exact hb.begins (hm.outerTag_ne_zero hown).1
  encodes := by
    intro v m t hm
    by_cases hv : ∃ st n, v = .struct st ∧ estimateMembers members.elements st = some n
    · obtain ⟨st, n, rfl, hest⟩ := hv
      obtain ⟨body, rfl, hmem, hc⟩ := writeMembers_emits himp hadm hest
      have hw := sequenceEncodeDer_emits hest hmem [own] m t
      rw [writtenTags_single hm] at hw
      refine .inr ⟨_, hw, fun hmax => ⟨hm, canonMembers st, body, [], rfl, ?_, .nil, .inl rfl, ?_⟩⟩
      · rw [List.length_append] at hmax
        exact hc (by omega)
      · rw [List.append_nil]
        exact constructed_tagOctets (hm.outerTag_ne_zero hown) hmax
    · refine .inl fun cb => ?_
      cases v with
      | struct st =>
          have hnone : estimateMembers members.elements st = none := by
            rw [Option.eq_none_iff_forall_ne_some]
            exact fun n hn => hv ⟨st, n, rfl, hn⟩
          show sequenceEncodeDer [own] members.elements (.struct st) m t cb = none
          rw [sequenceEncodeDer, hnone, Option.bind_none]
      | long | boolean | octets | choice => rfl
  decoded := by
    intro m t data v n hm hd
    obtain ⟨⟨left, c⟩, consumed, hcheck, hd⟩ := Outcome.bind_eq_ok hd
    obtain ⟨st, k, hmem, hd⟩ := Outcome.bind_eq_ok hd
    cases hd
    have hcb := checkTags_bounds hcheck
    rw [length_elements] at hmem
    obtain ⟨hp, hk⟩ := decodeMembers_sound ok
      (fun e he data v n hd => ((himp e he).decoded (hadm e he) hd).1)
      ⟨List.length_replicate, fun i hi => absurd hi (Nat.not_lt_zero i),
        fun i e v _ hv => by cases List.eq_of_mem_replicate (List.mem_of_getElem? hv)⟩ hmem
    dsimp only at hk
    rw [List.length_drop] at hk
    refine ⟨by omega, fun hknown m' t' _ => ?_⟩
    obtain ⟨k', hest⟩ := estimateMembers_progress himp hadm ok.pointers hp hknown
    obtain ⟨body, rfl, hmem, -⟩ := writeMembers_emits himp hadm hest
    exact ⟨_, sequenceEncodeDer_emits hest hmem [own] m' t'⟩

/-- **Where the decoder of a SEQUENCE hangs, that of a member hangs** on octets behind its tag. -/
theorem sequence_hang {tags : List ℕ} {data : List UInt8}
    (h : (sequence stack tags members.elements specs).berDecoder m data = .hang) :
    ∃ e ∈ members, ∃ inner, inner <:+: data ∧
      e.1.type.berDecoder e.1.tagMode inner = .hang := by
  obtain h | ⟨⟨left, c⟩, consumed, -, h⟩ := Outcome.bind_eq_hang h
  · exact absurd h (returns_checkTags _ _ _ _)
  · obtain h | ⟨st, k, -, h⟩ := Outcome.bind_eq_hang h
    · rw [length_elements] at h
      obtain ⟨e, he, inner, hin, hhang⟩ := decodeMembers_hang (by
        rw [List.length_drop]
        omega) h
      exact ⟨e, he, inner, hin.trans (List.drop_suffix _ _).isInfix, hhang⟩
    · cases h

theorem returns_sequence (tags : List ℕ) (m : TagMode)
    (hret : ∀ e ∈ members, Returns (e.1.type.berDecoder e.1.tagMode)) :
    Returns ((sequence stack tags members.elements specs).berDecoder m) := by
  intro data h
  obtain ⟨e, he, inner, -, hhang⟩ := sequence_hang h
  exact hret e he inner hhang

end sequences

end Remsim.Ber
