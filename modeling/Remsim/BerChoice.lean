import Remsim.BerSequence

/-! # CHOICE (`constr_CHOICE.c`)

The decoder takes off the explicit tag, if there is one, and finds the alternative by its tag.  An
extensible type skips what it does not know and leaves the structure without an alternative.

The end-of-contents octets behind an alternative are read by a loop of its own.  It goes round
without having moved when the first of them is zero and the second is not (`spin_chunkEnds`), so
that the decoder does not come back from such octets (`choice_spins`, `choice_hang_iff`). -/

namespace Remsim.Ber

open Delimited

/-! ### Decoding -/

/-- `asn_CHOICE_specifics_t`; `extStart` is `-1` where the type cannot be extended. -/
structure ChoiceSpecs where
  tag2el : List Tag2Member
  extStart : ℤ

/-- The loop that reads the "end of data chunks". -/
def chunkEnds : (fuel : ℕ) → Frame → Outcome Unit
  | 0, _ => .hang
  | fuel + 1, f =>
      if f.left < 0 then
        ((berFetchTag f.window).within f.sizeViolation).bind fun _ _ =>
          if f.data.head? = some 0 then
            if f.window.length < 2 then Outcome.more.within f.sizeViolation
            else if endOfContents f.data then chunkEnds fuel { f.advance 2 with left := f.left + 1 }
            else chunkEnds fuel f
          else .fail
      else .ok () f.consumed

/-- Phases 1 to 3, behind the tags of the type. -/
def decodeAlternative (stack : ℕ) (elements : List Member) (specs : ChoiceSpecs) (tagged : Bool)
    (f : Frame) : Outcome Value :=
  ((berFetchTag f.window).within f.sizeViolation).bind fun tlvTag tagLen =>
    match specs.tag2el.find? fun e => e.elTag = tlvTag with
    | none =>
        if specs.extStart = -1 then .fail
        else
          ((berSkipLength stack (berTlvConstructed f.data)
            (f.window.drop tagLen)).within f.sizeViolation).bind fun _ skip =>
              .ok (.choice 0 none) (f.consumed + (skip + tagLen))
    | some t2m =>
        match elements[t2m.elNo]? with
        | none => .fail
        | some elm =>
            ((elm.type.berDecoder elm.tagMode f.window).within f.sizeViolation).bind fun v used =>
              let f := f.advance used
              let st := Value.choice (t2m.elNo + 1) (some v)
              if 0 < f.left then .fail
              else if f.left = -1 ∧ tagged = false then .ok st f.consumed
              else (chunkEnds (f.left.natAbs + 1) f).bind fun _ n => .ok st n

/-- `CHOICE_decode_ber()`. -/
def choiceDecodeBer (stack : ℕ) (tags : List ℕ) (elements : List Member) (specs : ChoiceSpecs)
    (tagMode : TagMode) (ptr : List UInt8) : Outcome Value :=
  if tagMode ≠ .default ∨ tags ≠ [] then
    (berCheckTags tags tagMode none ptr).bind fun (left, _) consumed =>
      decodeAlternative stack elements specs true ⟨ptr.drop consumed, left, consumed⟩
  else decodeAlternative stack elements specs false ⟨ptr, -1, 0⟩

/-! ### Encoding -/

/-- `CHOICE_encode_der()`. -/
def choiceEncodeDer (tags : List ℕ) (elements : List Member) (v : Value) (tagMode : TagMode)
    (tag : ℕ) : Encoder := fun cb =>
  match v with
  | .choice present member =>
      if present = 0 ∨ elements.length < present then
        if present = 0 ∧ elements.length = 0 then some (0, cb) else none
      else
        match elements[present - 1]? with
        | none => none
        | some elm =>
            match member with
            | none => if elm.pointer ∧ elm.optional ≠ 0 then some (0, cb) else none
            | some v =>
                let encode := elm.type.derEncoder v elm.tagMode elm.tag
                if tagMode = .explicit ∨ tags ≠ [] then
                  (encode none).bind fun (n, _) =>
                    (derWriteTags tags n tagMode true tag cb).bind fun (ret, cb) =>
                      (encode cb).map fun (k, cb) => (k + ret, cb)
                else encode cb
  | _ => none

/-- The descriptor of a CHOICE. -/
def choice (stack : ℕ) (tags : List ℕ) (elements : List Member) (specs : ChoiceSpecs) :
    TypeDescriptor where
  tags := tags
  berDecoder := choiceDecodeBer stack tags elements specs
  derEncoder := choiceEncodeDer tags elements

/-! ### What the type is for -/

/-- **What the decoder relies on**: an alternative is found by its tag, and none is a pointer. -/
structure ChoiceOk (members : Members) (specs : ChoiceSpecs) : Prop where
  finds : ∀ i < members.length, ∀ tag ∈ members.tagsAt i,
    (specs.tag2el.find? fun e => e.elTag = tag).map Tag2Member.elNo = some i
  inline : ∀ e ∈ members, e.1.pointer = false
  nonempty : members ≠ []

instance (members : Members) (specs : ChoiceSpecs) : Decidable (ChoiceOk members specs) :=
  decidable_of_iff
    ((∀ i < members.length, ∀ tag ∈ members.tagsAt i,
        (specs.tag2el.find? fun e => e.elTag = tag).map Tag2Member.elNo = some i) ∧
      (∀ e ∈ members, e.1.pointer = false) ∧ members.length ≠ 0)
    ⟨fun h => ⟨h.1, h.2.1, fun he => h.2.2 (List.length_eq_zero_iff.mpr he)⟩,
      fun h => ⟨h.finds, h.inline, fun he => h.nonempty (List.length_eq_zero_iff.mp he)⟩⟩

/-- An encoding of one of the alternatives. -/
def Alternative (members : Members) (v : Value) (bs : List UInt8) : Prop :=
  ∃ i e w, members[i]? = some e ∧ v = .choice (i + 1) (some w) ∧
    e.2.Encodes e.1.tagMode e.1.tag w bs

/-- An element that only a later version of an extensible type knows. -/
def UnknownAlternative (stack : ℕ) (specs : ChoiceSpecs) (bs : List UInt8) : Prop :=
  specs.extStart ≠ -1 ∧ ∃ c tag h b, Identifier c tag h ∧ Body stack c b ∧
    tag ∉ specs.tag2el.map Tag2Member.elTag ∧ bs = h ++ b

/-- CHOICE, without a tag or with an explicit one.  Unknown alternatives are read behind an explicit
tag of definite length only. -/
def BerType.choice (stack : ℕ) (members : Members) (specs : ChoiceSpecs) : BerType where
  outer
    | .default, _ => members.flatMap fun e => e.2.outer e.1.tagMode e.1.tag
    | _, tag => [tag]
  Admits m tag := m = .default ∨ (m = .explicit ∧ IsTag tag)
  Encodes
    | .default, _, v, bs => Alternative members v bs
    | .implicit, _, _, _ => False
    | .explicit, tag, v, bs => IsTag tag ∧
        ((∃ body, Alternative members v body ∧ Constructed tag body bs) ∨
          (v = .choice 0 none ∧ ∃ h l body, UnknownAlternative stack specs body ∧
            Identifier true tag h ∧ Definite body.length l ∧ bs = h ++ l ++ body))

/-! ### Reading an alternative -/

section alternatives

variable {stack k n fuel : ℕ} {members : Members} {specs : ChoiceSpecs} {tagged : Bool} {f : Frame}
  {v : Value} {b : List UInt8} {x : UInt8} {rest : List UInt8}

theorem chunkEnds_done (hf : InFrame f [] 0) :
    chunkEnds (f.left.natAbs + 1) f = .ok () f.consumed := by
  cases hf with
  | definite rest hl hd =>
      have h0 : f.left = 0 := hl
      rw [chunkEnds, if_neg (by omega)]

theorem chunkEnds_indefinite (hf : InFrame f [] 2) :
    chunkEnds (f.left.natAbs + 1) f = .ok () (f.consumed + 2) := by
  cases hf with
  | indefinite rest hl hd =>
      have hd : f.data = 0 :: 0 :: rest := hd
      have hw : f.window = 0 :: 0 :: rest := by
        rw [Frame.window, if_pos (by omega), hd]
      have hfetch : berFetchTag (0 :: 0 :: rest) = .ok 0 1 := rfl
      have hnext : ¬f.left + 1 < 0 := by omega
      have hend : endOfContents f.data = true := by
        rw [hd]
        rfl
      have hone : f.left.natAbs + 1 = 1 + 1 := by rw [hl]; rfl
      rw [hone, chunkEnds, if_pos (by omega), hw, hfetch, Outcome.within_ok, Outcome.bind_ok, hend,
        if_pos rfl, hd, if_pos List.head?_cons, if_neg (by simp), chunkEnds, if_neg hnext]
      rfl

theorem chunkEnds_cut (hf : CutFrame f []) : chunkEnds (f.left.natAbs + 1) f = .more := by
  have hviol := hf.not_sizeViolation
  obtain ⟨hl, hd⟩ := hf.nil
  rw [chunkEnds, if_pos (by omega), hf.window]
  rcases hd with hd | hd
  · have hfetch : berFetchTag [] = .more := rfl
    rw [hd, hfetch, Outcome.within_more hviol, Outcome.bind_more]
  · have hfetch : berFetchTag [0] = .ok 0 1 := rfl
    rw [hd, hfetch, Outcome.within_ok, Outcome.bind_ok, if_pos List.head?_cons,
      if_pos (by decide), Outcome.within_more hviol]

/-- **The loop that reads the end goes round forever** on a zero octet with something else behind
it: nothing has changed when it comes back to its head. -/
theorem spin_chunkEnds (hleft : f.left < 0) (hd : f.data = 0 :: x :: rest) (hx : x ≠ 0)
    (fuel : ℕ) : chunkEnds fuel f = .hang := by
  have hw : f.window = 0 :: x :: rest := by rw [Frame.window, if_pos hleft, hd]
  have hfetch : berFetchTag f.window = .ok 0 1 := by
    rw [hw]
    rfl
  have hend : endOfContents f.data = false := by
    rw [hd, endOfContents]
    rintro l hl
    exact hx (List.cons.inj (List.cons.inj hl).2).1
  have hlen : ¬f.window.length < 2 := by
    rw [hw]
    simp only [List.length_cons]
    omega
  have hhead : f.data.head? = some 0 := by rw [hd]; rfl
  induction fuel with
  | zero => rfl
  | succ fuel ih =>
      rw [chunkEnds, if_pos hleft, hfetch, Outcome.within_ok, Outcome.bind_ok, if_pos hhead,
        if_neg hlen, hend, if_neg Bool.false_ne_true, ih]

theorem decodeAlternative_found (ok : ChoiceOk members specs) {i : ℕ} {e : Member × BerType}
    {tag : ℕ} (he : members[i]? = some e) (htag : tag ∈ members.tagsAt i)
    (hfetch : berFetchTag f.window = .ok tag n) :
    decodeAlternative stack members.elements specs tagged f =
      ((e.1.type.berDecoder e.1.tagMode f.window).within f.sizeViolation).bind fun v used =>
        let f := f.advance used
        let st := Value.choice (i + 1) (some v)
        if 0 < f.left then .fail
        else if f.left = -1 ∧ tagged = false then .ok st f.consumed
        else (chunkEnds (f.left.natAbs + 1) f).bind fun _ n => .ok st n := by
  have hi : i < members.length := (List.getElem?_eq_some_iff.mp he).1
  obtain ⟨t2m, hfind, hel⟩ := Option.map_eq_some_iff.mp (ok.finds i hi tag htag)
  rw [decodeAlternative, hfetch, Outcome.within_ok, Outcome.bind_ok]
  simp only [hfind, hel, elements_get he]

/-- Where the tag of an alternative is. -/
theorem Alternative.tag (himp : ∀ e ∈ members, Implements e.1.type e.2)
    (ha : Alternative members v b) : ∃ i e w c tag h r, members[i]? = some e ∧
      v = .choice (i + 1) (some w) ∧ Reads (e.1.type.berDecoder e.1.tagMode) b w ∧
      Identifier c tag h ∧ tag ∈ members.tagsAt i ∧ b = h ++ r := by
  obtain ⟨i, e, w, he, hv, henc⟩ := ha
  have himpe := himp e (List.mem_of_getElem? he)
  obtain ⟨c, tag, h, r, hb, hi, -, htag⟩ := himpe.begins henc
  rw [← tagsAt_get he] at htag
  exact ⟨i, e, w, c, tag, h, r, he, hv, himpe.reads henc, hi, htag, hb⟩

/-- **An alternative behind the tags of the type**, and what ends them. -/
theorem decodeAlternative_complete (ok : ChoiceOk members specs)
    (himp : ∀ e ∈ members, Implements e.1.type e.2) (ha : Alternative members v b)
    (hf : InFrame f b k) :
    decodeAlternative stack members.elements specs true f = .ok v (f.consumed + b.length + k) := by
  obtain ⟨i, e, w, c, tag, h, r, he, rfl, hreads, hi, htag, hb⟩ := ha.tag himp
  have hf' : InFrame f (b ++ []) k := by rwa [List.append_nil]
  obtain ⟨⟨y, hw⟩, -⟩ := hf'.append
  have hfetch : berFetchTag f.window = .ok tag h.length := by
    rw [hw, hb, List.append_assoc]
    exact hi.reads.complete _
  rw [decodeAlternative_found ok he htag hfetch, hw, hreads.complete, Outcome.within_ok,
    Outcome.bind_ok]
  have hadv := hf'.advance
  have hleft : ¬0 < (f.advance b.length).left := by
    cases hadv with
    | definite rest hl _ =>
        have h0 : (f.advance b.length).left = 0 := hl
        omega
    | indefinite rest hl _ => omega
  dsimp only
  rw [if_neg hleft, if_neg (by simp)]
  cases hadv with
  | definite rest hl hd =>
      rw [chunkEnds_done (.definite rest hl hd), Outcome.bind_ok]
      rfl
  | indefinite rest hl hd =>
      rw [chunkEnds_indefinite (.indefinite rest hl hd), Outcome.bind_ok]
      rfl

theorem decodeAlternative_cut (ok : ChoiceOk members specs)
    (himp : ∀ e ∈ members, Implements e.1.type e.2) (ha : Alternative members v b)
    (hf : CutFrame f b) :
    decodeAlternative stack members.elements specs true f = .more := by
  obtain ⟨i, e, w, c, tag, h, r, he, rfl, hreads, hi, htag, hb⟩ := ha.tag himp
  have hviol := hf.not_sizeViolation
  have hf' : CutFrame f (b ++ []) := by rwa [List.append_nil]
  have hfound : ∀ p, f.data = h ++ p → berFetchTag f.window = .ok tag h.length := by
    intro p hd
    rw [hf.window, hd]
    exact hi.reads.complete p
  obtain ⟨q, hq, hcut⟩ | ⟨p, hd, hadv⟩ := hf'.append
  · rw [hb] at hcut
    obtain ⟨q', hq', hcut'⟩ | ⟨p', hd, -⟩ := append_cut hcut
    · rw [decodeAlternative, hf.window, hi.reads.cut _ q' hq' hcut', Outcome.within_more hviol,
        Outcome.bind_more]
    · rw [← hb] at hcut
      rw [decodeAlternative_found ok he htag (hfound p' hd), hf.window, hreads.cut _ q hq hcut,
        Outcome.within_more hviol, Outcome.bind_more]
  · have hd' := hd
    rw [hb, List.append_assoc] at hd'
    obtain ⟨hl, -⟩ := hadv.nil
    rw [decodeAlternative_found ok he htag (hfound _ hd'), hf.window, hd, hreads.complete,
      Outcome.within_ok, Outcome.bind_ok]
    dsimp only
    rw [if_neg (by omega), if_neg (by simp), chunkEnds_cut hadv, Outcome.bind_more]

/-- **An alternative without a tag around it.** -/
theorem decodeAlternative_reads (ok : ChoiceOk members specs)
    (himp : ∀ e ∈ members, Implements e.1.type e.2) (ha : Alternative members v b) :
    Reads (fun data => decodeAlternative stack members.elements specs false ⟨data, -1, 0⟩) b v := by
  obtain ⟨i, e, w, c, tag, h, r, he, rfl, hreads, hi, htag, hb⟩ := ha.tag himp
  have hw : ∀ data, (⟨data, -1, 0⟩ : Frame).window = data := fun data =>
    if_pos (show (-1 : ℤ) < 0 by decide)
  have hviol : ∀ data, ¬(⟨data, -1, 0⟩ : Frame).sizeViolation := fun data h =>
    absurd h.1 (show ¬(0 : ℤ) ≤ -1 by decide)
  have hfound : ∀ p, berFetchTag (⟨h ++ p, -1, 0⟩ : Frame).window = .ok tag h.length := by
    intro p
    rw [hw]
    exact hi.reads.complete p
  constructor
  · intro rest
    have hfetch := hfound (r ++ rest)
    rw [← List.append_assoc, ← hb] at hfetch
    rw [decodeAlternative_found ok he htag hfetch, hw, hreads.complete, Outcome.within_ok,
      Outcome.bind_ok]
    simp only [Frame.advance, Nat.zero_add]
    rfl
  · intro p q hq hpq
    have hcut := hpq
    rw [hb] at hcut
    obtain ⟨q', hq', hcut'⟩ | ⟨p', rfl, -⟩ := append_cut hcut
    · rw [decodeAlternative, hw, hi.reads.cut _ q' hq' hcut', Outcome.within_more (hviol _),
        Outcome.bind_more]
    · rw [decodeAlternative_found ok he htag (hfound p'), hw, hreads.cut _ q hq hpq,
        Outcome.within_more (hviol _), Outcome.bind_more]

/-- **An unknown alternative** of an extensible type. -/
theorem decodeAlternative_unknown (hu : UnknownAlternative stack specs b) (hf : InFrame f b 0) :
    decodeAlternative stack members.elements specs tagged f =
      .ok (.choice 0 none) (f.consumed + b.length) := by
  obtain ⟨hext, c, tag, h, b', hi, hb', htag, rfl⟩ := hu
  have hf' : InFrame f ((h ++ b') ++ []) 0 := by rwa [List.append_nil]
  obtain ⟨⟨w, hw⟩, y, hd⟩ := hf'.append
  rw [List.append_assoc] at hw hd
  have hfind : specs.tag2el.find? (fun e => e.elTag = tag) = none := by
    rw [List.find?_eq_none]
    intro e he htrue
    exact htag (List.mem_map.mpr ⟨e, he, of_decide_eq_true htrue⟩)
  have hcons : berTlvConstructed f.data = c := by
    rw [hd]
    exact hi.constructed_append _
  rw [decodeAlternative, hw, hi.reads.complete, Outcome.within_ok, Outcome.bind_ok]
  simp only [hfind]
  rw [if_neg hext, hcons, List.drop_left, hb'.reads.complete, Outcome.within_ok, Outcome.bind_ok,
    List.length_append, Nat.add_comm b'.length]

theorem decodeAlternative_unknown_cut (hu : UnknownAlternative stack specs b) {q : List UInt8}
    (hf : CutFrame f b) (hq : q ≠ []) (hd : f.data ++ q = b) :
    decodeAlternative stack members.elements specs tagged f = .more := by
  obtain ⟨hext, c, tag, h, b', hi, hb', htag, rfl⟩ := hu
  have hviol := hf.not_sizeViolation
  have hfind : specs.tag2el.find? (fun e => e.elTag = tag) = none := by
    rw [List.find?_eq_none]
    intro e he htrue
    exact htag (List.mem_map.mpr ⟨e, he, of_decide_eq_true htrue⟩)
  rw [decodeAlternative, hf.window]
  obtain ⟨r, hr, hcut⟩ | ⟨p, hp, hcut⟩ := append_cut hd
  · rw [hi.reads.cut _ r hr hcut, Outcome.within_more hviol, Outcome.bind_more]
  · have hcons : berTlvConstructed f.data = c := by
      rw [hp]
      exact hi.constructed_append _
    have hfetch : berFetchTag f.data = .ok tag h.length := by
      rw [hp]
      exact hi.reads.complete p
    rw [hfetch, Outcome.within_ok, Outcome.bind_ok]
    simp only [hfind]
    rw [if_neg hext, hcons, hp, List.drop_left, hb'.reads.cut p q hq hcut,
      Outcome.within_more hviol, Outcome.bind_more]

end alternatives

/-! ### CHOICE types -/

section choices

variable {stack n t : ℕ} {members : Members} {specs : ChoiceSpecs} {m : TagMode} {tags : List ℕ}
  {bs data : List UInt8}

theorem choice_reads (ok : ChoiceOk members specs) (himp : ∀ e ∈ members, Implements e.1.type e.2)
    {v : Value} (h : (BerType.choice stack members specs).Encodes m t v bs) :
    Reads ((choice stack [] members.elements specs).berDecoder m) bs v := by
  show Reads (choiceDecodeBer stack [] members.elements specs m) bs v
  cases m with
  | default =>
      have hrun : choiceDecodeBer stack [] members.elements specs .default =
          fun data => decodeAlternative stack members.elements specs false ⟨data, -1, 0⟩ := by
        funext data
        rw [choiceDecodeBer, if_neg (by simp)]
      rw [hrun]
      exact decodeAlternative_reads ok himp h
  | implicit => exact absurd h id
  | explicit =>
      have hrun : ∀ data, choiceDecodeBer stack [] members.elements specs .explicit data =
          (checkTags none [none] none 0 false 0 0 data).bind fun r consumed =>
            decodeAlternative stack members.elements specs true
              ⟨data.drop consumed, r.1, consumed⟩ := by
        intro data
        rw [choiceDecodeBer, if_pos (by simp)]
        rfl
      have hdefinite : ∀ {h l body : List UInt8}, Identifier true t h → Definite body.length l →
          (∀ rest, decodeAlternative stack members.elements specs true
            ⟨body ++ rest, body.length, (h ++ l).length⟩ = .ok v ((h ++ l).length + body.length)) →
          (∀ p q, q ≠ [] → p ++ q = body → decodeAlternative stack members.elements specs true
            ⟨p, body.length, (h ++ l).length⟩ = .more) →
          Reads (choiceDecodeBer stack [] members.elements specs .explicit) (h ++ l ++ body) v := by
        intro h l body hi hl hcomplete hcut
        have hhead := checkTags_definite hi hl (.inl rfl : none = none ∨ _)
          (.inl rfl : none = none ∨ _)
        constructor
        · intro rest
          rw [hrun, List.append_assoc, hhead.complete, Outcome.bind_ok, List.drop_left]
          dsimp only
          rw [hcomplete, @List.length_append _ (h ++ l)]
        · intro p q hq hpq
          rw [hrun]
          obtain ⟨r, hr, hp⟩ | ⟨p', rfl, hp'⟩ := append_cut hpq
          · rw [hhead.cut p r hr hp, Outcome.bind_more]
          · rw [hhead.complete, Outcome.bind_ok, List.drop_left]
            exact hcut p' q hq hp'
      obtain ⟨-, ⟨body, ha, hb⟩ | ⟨rfl, h, l, body, hu, hi, hl, rfl⟩⟩ := h
      · cases hb with
        | @definite h l hi hl =>
            apply hdefinite hi hl
            · intro rest
              exact decodeAlternative_complete ok himp ha (.definite rest rfl rfl)
            · intro p q hq hpq
              exact decodeAlternative_cut ok himp ha (.definite q hq rfl hpq)
        | @indefinite h hi =>
            have hhead := checkTags_indefinite hi (.inl rfl : none = none ∨ _)
              (.inl rfl : none = none ∨ _)
            constructor
            · intro rest
              rw [hrun, List.append_assoc, hhead.complete, Outcome.bind_ok, List.drop_left]
              dsimp only
              rw [decodeAlternative_complete ok himp ha
                (.indefinite rest rfl (by rw [List.append_assoc]; rfl))]
              simp only [List.length_append, List.length_cons, List.length_nil, Nat.add_assoc]
            · intro p q hq hpq
              rw [hrun]
              obtain ⟨r, hr, hp⟩ | ⟨p', rfl, hp'⟩ := append_cut hpq
              · rw [hhead.cut p r hr hp, Outcome.bind_more]
              · rw [hhead.complete, Outcome.bind_ok, List.drop_left]
                exact decodeAlternative_cut ok himp ha (.indefinite q hq rfl hp')
      · apply hdefinite hi hl
        · intro rest
          exact decodeAlternative_unknown hu (.definite rest rfl rfl)
        · intro p q hq hpq
          exact decodeAlternative_unknown_cut hu (.definite q hq rfl hpq) hq hpq

theorem choiceEncodeDer_present {i : ℕ} {e : Member × BerType} (he : members[i]? = some e)
    (w : Value) (m : TagMode) (t : ℕ) (cb : Sink) :
    choiceEncodeDer [] members.elements (.choice (i + 1) (some w)) m t cb =
      if m = .explicit then
        (e.1.type.derEncoder w e.1.tagMode e.1.tag none).bind fun r =>
          (derWriteTags [] r.1 m true t cb).bind fun s =>
            (e.1.type.derEncoder w e.1.tagMode e.1.tag s.2).map fun u => (u.1 + s.1, u.2)
      else e.1.type.derEncoder w e.1.tagMode e.1.tag cb := by
  have hi : i < members.length := (List.getElem?_eq_some_iff.mp he).1
  have hrange : ¬(i + 1 = 0 ∨ members.elements.length < i + 1) := by
    rw [length_elements]
    omega
  have hcond : (m = .explicit ∨ ([] : List ℕ) ≠ []) = (m = .explicit) := by simp
  unfold choiceEncodeDer
  simp only [if_neg hrange, Nat.add_sub_cancel, elements_get he, hcond]

theorem choiceEncodeDer_emits {i : ℕ} {e : Member × BerType} {w : Value}
    (he : members[i]? = some e) (hw : Emits (e.1.type.derEncoder w e.1.tagMode e.1.tag) bs) :
    Emits (choiceEncodeDer [] members.elements (.choice (i + 1) (some w)) m t)
      (if m = .explicit then tagOctets bs.length true [t] ++ bs else bs) := by
  by_cases hm : m = .explicit
  · have htags := derWriteTags_emits [] bs.length m true t
    rw [hm] at htags ⊢
    have hwritten : writtenTags [] .explicit t = [t] := rfl
    rw [hwritten] at htags
    rw [if_pos rfl]
    refine ⟨?_, fun arg => ?_⟩
    · rw [choiceEncodeDer_present he, if_pos rfl, hw.estimate, Option.bind_some, htags.estimate,
        Option.bind_some, hw.estimate, Option.map_some, List.length_append, Nat.add_comm]
    · rw [choiceEncodeDer_present he, if_pos rfl, hw.estimate, Option.bind_some, htags.write,
        encodeToBufferCb_append]
      cases encodeToBufferCb (tagOctets bs.length true [t]) arg with
      | none => rfl
      | some arg' =>
          rw [Option.map_some, Option.bind_some, Option.bind_some, hw.write, Option.map_map,
            List.length_append, Nat.add_comm]
          rfl
  · rw [if_neg hm]
    refine ⟨?_, fun arg => ?_⟩
    · rw [choiceEncodeDer_present he, if_neg hm, hw.estimate]
    · rw [choiceEncodeDer_present he, if_neg hm, hw.write]

/-- **The encoder writes the alternative that is present**, or nothing at all. -/
theorem choice_encodes (ok : ChoiceOk members specs)
    (himp : ∀ e ∈ members, Implements e.1.type e.2)
    (hadm : ∀ e ∈ members, e.2.Admits e.1.tagMode e.1.tag) (v : Value)
    (hm : (BerType.choice stack members specs).Admits m t) :
    Refuses (choiceEncodeDer [] members.elements v m t) ∨
      ∃ bs, Emits (choiceEncodeDer [] members.elements v m t) bs ∧
        (bs.length + 1024 < 2 ^ 63 →
          (BerType.choice stack members specs).Encodes m t v.canon bs) := by
  cases v with
  | long | boolean | octets | struct => exact .inl fun _ => rfl
  | choice present member =>
      cases present with
      | zero =>
          refine .inl fun cb => ?_
          have hlen : members.elements.length ≠ 0 := by
            rw [length_elements]
            exact fun h => ok.nonempty (List.length_eq_zero_iff.mp h)
          unfold choiceEncodeDer
          simp only [true_or, if_true, true_and, hlen, if_false]
      | succ i =>
          cases he : members[i]? with
          | none =>
              refine .inl fun cb => ?_
              rw [List.getElem?_eq_none_iff] at he
              unfold choiceEncodeDer
              simp only [length_elements, Nat.succ_ne_zero, false_or, false_and, if_false,
                Nat.lt_succ_of_le he, if_true]
          | some e =>
              have hmem := List.mem_of_getElem? he
              have hi : i < members.length := (List.getElem?_eq_some_iff.mp he).1
              cases member with
              | none =>
                  refine .inl fun cb => ?_
                  have hrange : ¬(i + 1 = 0 ∨ members.elements.length < i + 1) := by
                    rw [length_elements]
                    omega
                  unfold choiceEncodeDer
                  simp only [if_neg hrange, Nat.add_sub_cancel, elements_get he,
                    ok.inline e hmem, Bool.false_eq_true, false_and, if_false]
              | some w =>
                  obtain href | ⟨b, hw, henc⟩ := (himp e hmem).encodes w (hadm e hmem)
                  · refine .inl fun cb => ?_
                    rw [choiceEncodeDer_present he, href none, href cb]
                    split_ifs <;> rfl
                  · refine .inr ⟨_, choiceEncodeDer_emits he hw, fun hmax => ?_⟩
                    obtain rfl | ⟨rfl, ht⟩ := hm
                    · exact ⟨i, e, w.canon, he, rfl, henc hmax⟩
                    · rw [if_pos rfl] at hmax ⊢
                      have hb : b.length + 1024 < 2 ^ 63 := by
                        rw [List.length_append] at hmax
                        omega
                      exact ⟨ht, .inl ⟨b, ⟨i, e, w.canon, he, rfl, henc hb⟩,
                        constructed_tagOctets ht hmax⟩⟩

theorem chunkEnds_bounds {fuel k : ℕ} {f : Frame} (h : chunkEnds fuel f = .ok () k) :
    f.consumed ≤ k ∧ k ≤ f.consumed + f.data.length := by
  induction fuel generalizing f with
  | zero => cases h
  | succ fuel ih =>
      rw [chunkEnds] at h
      by_cases hleft : f.left < 0
      · rw [if_pos hleft] at h
        obtain ⟨tag, tl, -, h⟩ := Outcome.bind_eq_ok h
        split at h
        · split at h
          · cases Outcome.within_eq_ok h
          · split at h
            · rename_i hend
              have hlen := endOfContents_length hend
              have := ih h
              simp only [Frame.advance, List.length_drop] at this
              omega
            · exact ih h
        · cases h
      · rw [if_neg hleft] at h
        cases h
        exact ⟨le_rfl, Nat.le_add_right _ _⟩

/-- What comes out was there, and is one of the alternatives or none. -/
theorem decodeAlternative_sound (himp : ∀ e ∈ members, Implements e.1.type e.2)
    (hadm : ∀ e ∈ members, e.2.Admits e.1.tagMode e.1.tag) {tagged : Bool} {f : Frame} {k : ℕ}
    {v : Value}
    (h : decodeAlternative stack members.elements specs tagged f = .ok v k) :
    f.consumed ≤ k ∧ k ≤ f.consumed + f.data.length ∧
      (v = .choice 0 none ∨ ∃ i e w data n, members[i]? = some e ∧
        v = .choice (i + 1) (some w) ∧ e.1.type.berDecoder e.1.tagMode data = .ok w n) := by
  obtain ⟨tag, tl, hfetch, h⟩ := Outcome.bind_eq_ok h
  have htl := fetchTag_bounds (Outcome.within_eq_ok hfetch)
  have hwin := f.window_le
  split at h
  · split at h
    · cases h
    · obtain ⟨_, skip, hskip, h⟩ := Outcome.bind_eq_ok h
      have hll := skipLength_bounds (Outcome.within_eq_ok hskip)
      rw [List.length_drop] at hll
      cases h
      refine ⟨by omega, by omega, .inl rfl⟩
  · rename_i t2m _
    split at h
    · cases h
    · rename_i elm helm
      obtain ⟨e, he, rfl⟩ : ∃ e, members[t2m.elNo]? = some e ∧ e.1 = elm := by
        rw [Members.elements, List.getElem?_map, Option.map_eq_some_iff] at helm
        exact helm
      obtain ⟨w, used, hdec, h⟩ := Outcome.bind_eq_ok h
      have hdec := Outcome.within_eq_ok hdec
      have hmem := List.mem_of_getElem? he
      have hused := ((himp e hmem).decoded (hadm e hmem) hdec).1
      have hwit : ∃ i e' w' data n, members[i]? = some e' ∧
          Value.choice (t2m.elNo + 1) (some w) = .choice (i + 1) (some w') ∧
            e'.1.type.berDecoder e'.1.tagMode data = .ok w' n :=
        ⟨t2m.elNo, e, w, f.window, used, he, rfl, hdec⟩
      dsimp only at h
      split at h
      · cases h
      · split at h
        · cases h
          exact ⟨Nat.le_add_right _ _, Nat.add_le_add_left (by omega) _, .inr hwit⟩
        · obtain ⟨_, n, hend, h⟩ := Outcome.bind_eq_ok h
          have hb := chunkEnds_bounds hend
          cases h
          simp only [Frame.advance, List.length_drop] at hb
          exact ⟨by omega, by omega, .inr hwit⟩

/-- **A CHOICE type**, given its tables and its alternatives' types. -/
theorem choice_implements (ok : ChoiceOk members specs)
    (himp : ∀ e ∈ members, Implements e.1.type e.2)
    (hadm : ∀ e ∈ members, e.2.Admits e.1.tagMode e.1.tag) :
    Implements (choice stack [] members.elements specs) (.choice stack members specs) where
  reads := fun h => choice_reads ok himp h
  begins := by
    intro m t v bs h
    cases m with
    | default =>
        obtain ⟨i, e, w, he, -, henc⟩ := h
        have hmem := List.mem_of_getElem? he
        obtain ⟨c, tag, h, r, hb, hi, h0, htag⟩ := (himp e hmem).begins henc
        exact ⟨c, tag, h, r, hb, hi, h0, List.mem_flatMap.mpr ⟨e, hmem, htag⟩⟩
    | implicit => exact absurd h id
    | explicit =>
        obtain ⟨ht, ⟨body, -, hb⟩ | ⟨-, h, l, body, -, hi, -, rfl⟩⟩ := h
        · exact hb.begins ht.1
        · exact ⟨true, t, h, l ++ body, List.append_assoc _ _ _, hi, ht.1,
            List.mem_singleton_self _⟩
  encodes := fun v _ _ hm => choice_encodes ok himp hadm v hm
  decoded := by
    intro m t data v n hm hd
    have hsound : n ≤ data.length ∧ (v = .choice 0 none ∨ ∃ i e w data n,
        members[i]? = some e ∧ v = .choice (i + 1) (some w) ∧
          e.1.type.berDecoder e.1.tagMode data = .ok w n) := by
      change choiceDecodeBer stack [] members.elements specs m data = .ok v n at hd
      unfold choiceDecodeBer at hd
      split at hd
      · obtain ⟨⟨left, c⟩, consumed, hcheck, hd⟩ := Outcome.bind_eq_ok hd
        have hcb := checkTags_bounds hcheck
        obtain ⟨hlo, hhi, hv⟩ := decodeAlternative_sound himp hadm hd
        dsimp only at hhi
        rw [List.length_drop] at hhi
        exact ⟨by omega, hv⟩
      · obtain ⟨-, hhi, hv⟩ := decodeAlternative_sound himp hadm hd
        dsimp only at hhi
        exact ⟨by omega, hv⟩
    refine ⟨hsound.1, fun hknown m' t' _ => ?_⟩
    obtain rfl | ⟨i, e, w, data', n', he, rfl, hdec⟩ := hsound.2
    · exact absurd hknown (by decide)
    · have hmem := List.mem_of_getElem? he
      rw [Value.known, Bool.and_eq_true] at hknown
      obtain ⟨b, hb⟩ := ((himp e hmem).decoded (hadm e hmem) hdec).2 hknown.2 _ _ (hadm e hmem)
      exact ⟨_, choiceEncodeDer_emits he hb⟩

/-- **The decoder does not come back** from an alternative behind an explicit tag of indefinite
length when a zero octet is followed by anything but another one. -/
theorem choice_spins (ok : ChoiceOk members specs)
    (himp : ∀ e ∈ members, Implements e.1.type e.2) {v : Value} {h b rest : List UInt8} {x : UInt8}
    (hi : Identifier true t h) (ha : Alternative members v b) (hx : x ≠ 0) :
    (choice stack [] members.elements specs).berDecoder .explicit
      (h ++ [0x80] ++ (b ++ 0 :: x :: rest)) = .hang := by
  have hhead := checkTags_indefinite hi (.inl rfl : none = none ∨ _) (.inl rfl : none = none ∨ _)
  obtain ⟨i, e, w, c, tag, h', r, he, rfl, hreads, hi', htag, hb⟩ := ha.tag himp
  show choiceDecodeBer stack [] members.elements specs .explicit _ = _
  rw [choiceDecodeBer, if_pos (by simp)]
  show ((checkTags none [none] none 0 false 0 0 _).bind _) = _
  rw [hhead.complete, Outcome.bind_ok, List.drop_left]
  dsimp only
  have hw : (⟨b ++ 0 :: x :: rest, -1, (h ++ [0x80]).length⟩ : Frame).window =
      b ++ 0 :: x :: rest := if_pos (show (-1 : ℤ) < 0 by decide)
  have hfetch : berFetchTag (⟨b ++ 0 :: x :: rest, -1, (h ++ [0x80]).length⟩ : Frame).window =
      .ok tag h'.length := by
    rw [hw, hb, List.append_assoc]
    exact hi'.reads.complete _
  rw [decodeAlternative_found ok he htag hfetch, hw, hreads.complete, Outcome.within_ok,
    Outcome.bind_ok]
  dsimp only
  have hleft : (Frame.advance ⟨b ++ 0 :: x :: rest, -1, (h ++ [0x80]).length⟩ b.length).left = -1 :=
    rfl
  rw [hleft, if_neg (by decide), if_neg (by simp), spin_chunkEnds (by rw [hleft]; decide)
    (show _ = 0 :: x :: rest from List.drop_left) hx, Outcome.bind_hang]

/-- Where the loop at the end does not come back, once. -/
theorem chunkEnds_hang {f : Frame} (hleft : f.left = -1)
    (h : chunkEnds (f.left.natAbs + 1) f = .hang) :
    ∃ x rest, f.data = 0 :: x :: rest ∧ x ≠ 0 := by
  have hone : f.left.natAbs + 1 = 1 + 1 := by rw [hleft]; rfl
  have hnext : ¬f.left + 1 < 0 := by omega
  have hw : f.window = f.data := if_pos (by omega)
  rw [hone, chunkEnds, if_pos (by omega), hw] at h
  obtain h | ⟨tag, tl, -, h⟩ := Outcome.bind_eq_hang h
  · exact absurd (Outcome.within_eq_hang h) (returns_fetchTag _)
  split at h
  · rename_i hhead
    split at h
    · cases Outcome.within_eq_hang h
    · rename_i hlen
      split at h
      · rw [chunkEnds, if_neg hnext] at h
        cases h
      · rename_i hend
        cases hd : f.data with
        | nil =>
            rw [hd] at hhead
            cases hhead
        | cons o l =>
            rw [hd, List.head?_cons] at hhead
            obtain rfl := Option.some.inj hhead
            cases l with
            | nil =>
                rw [hd] at hlen
                exact absurd (by decide) hlen
            | cons x rest =>
                refine ⟨x, rest, rfl, ?_⟩
                rintro rfl
                rw [hd] at hend
                exact hend rfl
  · cases h

/-- The decoder of an alternative takes octets that begin with its tag. -/
def Taken (elements : List Member) (specs : ChoiceSpecs) (body : List UInt8) (i : ℕ) (v : Value)
    (n : ℕ) : Prop :=
  ∃ tag tl t2m elm, berFetchTag body = .ok tag tl ∧
    (specs.tag2el.find? fun e => e.elTag = tag) = some t2m ∧ t2m.elNo = i ∧
    elements[i]? = some elm ∧ elm.type.berDecoder elm.tagMode body = .ok v n

theorem untagged_eq_ok {elements : List Member} {body : List UInt8} {i : ℕ} {v : Value} :
    decodeAlternative stack elements specs false ⟨body, -1, 0⟩ =
      .ok (.choice (i + 1) (some v)) n ↔ Taken elements specs body i v n := by
  have hw : (⟨body, -1, 0⟩ : Frame).window = body := if_pos (show (-1 : ℤ) < 0 by decide)
  constructor
  · intro h
    obtain ⟨tag, tl, hfetch, h⟩ := Outcome.bind_eq_ok h
    have hfetch := Outcome.within_eq_ok hfetch
    rw [hw] at hfetch
    split at h
    · split at h
      · cases h
      · obtain ⟨_, skip, -, h⟩ := Outcome.bind_eq_ok h
        cases h
    · rename_i t2m hfind
      split at h
      · cases h
      · rename_i elm helm
        obtain ⟨w, used, hdec, h⟩ := Outcome.bind_eq_ok h
        have hdec := Outcome.within_eq_ok hdec
        rw [hw] at hdec
        simp only [Frame.advance, Nat.zero_add] at h
        injection h with hv hn
        injection hv with hi hm
        obtain rfl : t2m.elNo = i := Nat.succ.inj hi
        obtain rfl := Option.some.inj hm
        rw [hn] at hdec
        exact ⟨tag, tl, t2m, elm, hfetch, hfind, rfl, helm, hdec⟩
  · rintro ⟨tag, tl, t2m, elm, hfetch, hfind, rfl, helm, hdec⟩
    rw [decodeAlternative, hw, hfetch, Outcome.within_ok, Outcome.bind_ok]
    simp only [hfind, helm, hdec, Outcome.within_ok, Outcome.bind_ok, Frame.advance, Nat.zero_add]
    rfl

/-- The loop at the end is the only part that does not come back. -/
theorem decodeAlternative_hang (himp : ∀ e ∈ members, Implements e.1.type e.2)
    (hadm : ∀ e ∈ members, e.2.Admits e.1.tagMode e.1.tag)
    (hret : ∀ e ∈ members, Returns (e.1.type.berDecoder e.1.tagMode)) {f : Frame}
    (hleft : 0 ≤ f.left ∨ f.left = -1)
    (h : decodeAlternative stack members.elements specs true f = .hang) :
    f.left = -1 ∧ ∃ i v b x rest, f.data = b ++ 0 :: x :: rest ∧ x ≠ 0 ∧
      Taken members.elements specs f.data i v b.length := by
  obtain h | ⟨tag, tl, hfetch, h⟩ := Outcome.bind_eq_hang h
  · exact absurd (Outcome.within_eq_hang h) (returns_fetchTag _)
  have hfetch := Outcome.within_eq_ok hfetch
  split at h
  · split at h
    · cases h
    · obtain h | ⟨_, skip, -, h⟩ := Outcome.bind_eq_hang h
      · exact absurd (Outcome.within_eq_hang h) (returns_skipLength _ _ _)
      · cases h
  · rename_i t2m hfind
    split at h
    · cases h
    · rename_i elm helm
      obtain ⟨e, he, rfl⟩ : ∃ e, members[t2m.elNo]? = some e ∧ e.1 = elm := by
        have helm := helm
        rw [Members.elements, List.getElem?_map, Option.map_eq_some_iff] at helm
        exact helm
      have hmem := List.mem_of_getElem? he
      obtain h | ⟨w, used, hdec, h⟩ := Outcome.bind_eq_hang h
      · exact absurd (Outcome.within_eq_hang h) (hret e hmem _)
      have hdec := Outcome.within_eq_ok hdec
      have hused := ((himp e hmem).decoded (hadm e hmem) hdec).1
      dsimp only at h
      split at h
      · cases h
      rename_i hpos
      split at h
      · cases h
      obtain h | ⟨_, n, -, h⟩ := Outcome.bind_eq_hang h
      · rcases hleft with hleft | hleft
        · -- of definite length: nothing is left, and the loop is not entered
          have hwin : (f.window.length : ℤ) ≤ f.left := by
            rw [Frame.window, if_neg (by omega), List.length_take]
            omega
          have hadv : (f.advance used).left = f.left - used := if_pos hleft
          rw [chunkEnds, if_neg (by omega)] at h
          cases h
        · have hadv : (f.advance used).left = -1 := by
            rw [Frame.advance, if_neg (by omega), hleft]
          have hw : f.window = f.data := if_pos (by omega)
          rw [hw] at hfetch hdec hused
          obtain ⟨x, rest, hd, hx⟩ := chunkEnds_hang hadv h
          have hlen : (f.data.take used).length = used := List.length_take_of_le hused
          refine ⟨hleft, t2m.elNo, w, f.data.take used, x, rest, ?_, hx, tag, tl, t2m, e.1, hfetch,
            hfind, rfl, helm, ?_⟩
          · rw [← hd]
            exact (List.take_append_drop used f.data).symm
          · rw [hlen]
            exact hdec
      · cases h

/-- The header of a CHOICE with an explicit tag: the length is definite, or it is `80`. -/
theorem explicit_header {left : ℤ} {c : Bool} {consumed : ℕ}
    (hcheck : checkTags none [none] none 0 false 0 0 data = .ok (left, c) consumed) :
    0 ≤ left ∨ left = -1 ∧ ∃ tag h, berTlvConstructed data = true ∧
      berFetchTag data = .ok tag h.length ∧ data = h ++ 0x80 :: data.drop consumed := by
  rw [checkTags] at hcheck
  obtain ⟨tag, tl, hfetch, hcheck⟩ := Outcome.bind_eq_ok hcheck
  have htl := fetchTag_bounds hfetch
  have hcheck := (Outcome.guard_eq_ok hcheck).2
  have hcheck := (Outcome.guard_eq_ok hcheck).2
  have hcheck := (Outcome.guard_eq_ok hcheck).2
  obtain ⟨len, ll, hlen, hcheck⟩ := Outcome.bind_eq_ok hcheck
  dsimp only at hcheck
  split at hcheck
  · rename_i hindef
    rw [hindef] at hlen
    obtain ⟨hcons, rfl, rest, hrest⟩ := fetchLength_indefinite hlen
    rw [if_pos rfl, checkTags, if_pos (by decide)] at hcheck
    cases hcheck
    refine .inr ⟨rfl, tag, data.take tl, hcons, ?_, ?_⟩
    · rw [List.length_take_of_le htl.2]
      exact hfetch
    · have hdrop : data.drop (0 + (tl + 1)) = rest := by
        rw [Nat.zero_add, ← List.drop_drop, hrest]
        rfl
      rw [hdrop, ← hrest, List.take_append_drop]
  · rename_i hdef
    have hnonneg := (fetchLength_bounds hlen).1
    have hcheck := (Outcome.guard_eq_ok hcheck).2
    have hcheck := (Outcome.guard_eq_ok hcheck).2
    have hcheck := (Outcome.guard_eq_ok hcheck).2
    rw [checkTags, if_neg (by decide)] at hcheck
    cases hcheck
    exact .inl (by omega)

theorem explicit_indefinite {tag : ℕ} {h body : List UInt8}
    (hcons : berTlvConstructed (h ++ 0x80 :: body) = true)
    (hfetch : berFetchTag (h ++ 0x80 :: body) = .ok tag h.length) :
    checkTags none [none] none 0 false 0 0 (h ++ 0x80 :: body) =
      .ok (-1, true) (h.length + 1) := by
  have hlength : berFetchLength true (0x80 :: body) = .ok (-1) 1 := reads_indefinite.complete _
  rw [checkTags, hfetch, Outcome.bind_ok, hcons, List.drop_left]
  dsimp only
  rw [if_neg (by simp), if_neg (by simp), if_neg (by simp), hlength, Outcome.bind_ok,
    if_pos rfl, if_pos rfl, checkTags, if_pos (by decide), Nat.zero_add, Nat.zero_add]
  rfl

/-- **Exactly when a CHOICE with an explicit tag is not decoded in finite time**: its length is
indefinite, the same decoder takes what follows for an alternative, and behind that stands a zero
octet that is followed by another one than zero. -/
theorem choice_hang_iff (himp : ∀ e ∈ members, Implements e.1.type e.2)
    (hadm : ∀ e ∈ members, e.2.Admits e.1.tagMode e.1.tag)
    (hret : ∀ e ∈ members, Returns (e.1.type.berDecoder e.1.tagMode)) :
    (choice stack [] members.elements specs).berDecoder .explicit data = .hang ↔
      ∃ tag h b x rest i v, berTlvConstructed data = true ∧ berFetchTag data = .ok tag h.length ∧
        data = h ++ 0x80 :: (b ++ 0 :: x :: rest) ∧ x ≠ 0 ∧
        (choice stack [] members.elements specs).berDecoder .default (b ++ 0 :: x :: rest) =
          .ok (.choice (i + 1) (some v)) b.length := by
  have hrun : (choice stack [] members.elements specs).berDecoder .explicit data =
      (checkTags none [none] none 0 false 0 0 data).bind fun r consumed =>
        decodeAlternative stack members.elements specs true
          ⟨data.drop consumed, r.1, consumed⟩ := by
    show choiceDecodeBer stack [] members.elements specs .explicit data = _
    rw [choiceDecodeBer, if_pos (by simp)]
    rfl
  have huntagged : ∀ body, (choice stack [] members.elements specs).berDecoder .default body =
      decodeAlternative stack members.elements specs false ⟨body, -1, 0⟩ := by
    intro body
    show choiceDecodeBer stack [] members.elements specs .default body = _
    rw [choiceDecodeBer, if_neg (by simp)]
  rw [hrun]
  constructor
  · intro h
    obtain h | ⟨⟨left, c⟩, consumed, hcheck, h⟩ := Outcome.bind_eq_hang h
    · exact absurd h checkTags_ne_hang
    have hheader := explicit_header hcheck
    obtain ⟨hleft, i, v, b, x, rest, hd, hx, htaken⟩ := decodeAlternative_hang himp hadm hret
      (hheader.imp id And.left) h
    dsimp only at hleft hd htaken
    obtain hnonneg | ⟨-, tag, h, hcons, hfetch, hdata⟩ := hheader
    · omega
    · rw [hd] at hdata htaken
      exact ⟨tag, h, b, x, rest, i, v, hcons, hfetch, hdata, hx, by
        rw [huntagged]
        exact untagged_eq_ok.mpr htaken⟩
  · rintro ⟨tag, h, b, x, rest, i, v, hcons, hfetch, rfl, hx, hdec⟩
    rw [huntagged] at hdec
    obtain ⟨tag', tl, t2m, elm, hfetch', hfind, rfl, helm, hdec⟩ := untagged_eq_ok.mp hdec
    have hdrop :
        (h ++ 0x80 :: (b ++ 0 :: x :: rest)).drop (h.length + 1) = b ++ 0 :: x :: rest := by
      rw [← List.drop_drop, List.drop_left]
      rfl
    have hw : ∀ consumed, (⟨b ++ 0 :: x :: rest, -1, consumed⟩ : Frame).window =
        b ++ 0 :: x :: rest := fun _ => if_pos (show (-1 : ℤ) < 0 by decide)
    rw [explicit_indefinite hcons hfetch, Outcome.bind_ok, hdrop, decodeAlternative, hw, hfetch', Outcome.within_ok,
      Outcome.bind_ok]
    simp only [hfind, helm, hdec, Outcome.within_ok, Outcome.bind_ok]
    have hleft : (Frame.advance ⟨b ++ 0 :: x :: rest, -1, h.length + 1⟩ b.length).left = -1 := rfl
    rw [hleft, if_neg (by decide), if_neg (by simp), spin_chunkEnds (by rw [hleft]; decide)
      (show _ = 0 :: x :: rest from List.drop_left) hx, Outcome.bind_hang]

theorem returns_choice (hret : ∀ e ∈ members, Returns (e.1.type.berDecoder e.1.tagMode)) :
    Returns ((choice stack [] members.elements specs).berDecoder .default) := by
  intro data h
  change choiceDecodeBer stack [] members.elements specs .default data = .hang at h
  rw [choiceDecodeBer, if_neg (by simp)] at h
  obtain h | ⟨tag, tl, -, h⟩ := Outcome.bind_eq_hang h
  · exact returns_fetchTag _ (Outcome.within_eq_hang h)
  split at h
  · split at h
    · cases h
    · obtain h | ⟨_, skip, -, h⟩ := Outcome.bind_eq_hang h
      · exact returns_skipLength _ _ _ (Outcome.within_eq_hang h)
      · cases h
  · split at h
    · cases h
    · rename_i elm helm
      obtain ⟨e, he, rfl⟩ := List.mem_map.mp (List.mem_of_getElem? helm)
      obtain h | ⟨w, used, -, h⟩ := Outcome.bind_eq_hang h
      · exact hret e he _ (Outcome.within_eq_hang h)
      · have hleft : (Frame.advance ⟨data, -1, 0⟩ used).left = -1 := rfl
        dsimp only at h
        rw [hleft, if_neg (by decide), if_pos ⟨rfl, rfl⟩] at h
        cases h

end choices

end Remsim.Ber
