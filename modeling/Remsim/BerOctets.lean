import Remsim.BerInteger

/-! # BOOLEAN and OCTET STRING (`BOOLEAN.c`, `OCTET_STRING.c`)

An OCTET STRING is one primitive element, or a constructed one of segments that may be constructed
themselves.  For the latter `OCTET_STRING_decode_ber()` keeps a stack of expectations, one for each
element that it is inside of; here it is a list with the innermost one first.  `Segments` says what
such a string looks like, to any depth and with lengths of both forms, and `runs_segments` that the
stack machine collects the octets of all of its segments. -/

namespace Remsim.Ber

open Delimited

/-! ### BOOLEAN -/

/-- The first octet that is not zero, or zero. -/
def firstNonZero : List UInt8 → ℤ
  | [] => 0
  | o :: l => if o = 0 then firstNonZero l else o.toNat

/-- `BOOLEAN_decode_ber()`. -/
def booleanDecodeBer (tags : List ℕ) (tagMode : TagMode) (bufPtr : List UInt8) : Outcome Value :=
  (decodeContents tags tagMode bufPtr).bind fun contents consumed =>
    .ok (.boolean (firstNonZero contents)) consumed

/-- `BOOLEAN_encode_der()`. -/
def booleanEncodeDer (tags : List ℕ) (v : Value) (tagMode : TagMode) (tag : ℕ) : Encoder :=
  match v with
  | .boolean st => derEncodePrimitive tags [if st ≠ 0 then 0xff else 0] tagMode tag
  | _ => fun _ => none

/-- The descriptor of BOOLEAN. -/
def boolean (tags : List ℕ) : TypeDescriptor where
  tags := tags
  berDecoder := booleanDecodeBer tags
  derEncoder := booleanEncodeDer tags

/-- BOOLEAN: true if any of the contents octets is not zero. -/
def BerType.boolean (own : ℕ) : BerType :=
  .primitive own fun v c => v = .boolean (firstNonZero c)

theorem boolean_implements {own : ℕ} (hown : IsTag own) :
    Implements (boolean [own]) (.boolean own) := by
  have hR : (fun (v : Value) (c : List UInt8) => v = .boolean (firstNonZero c)) =
      fun v c => some (Value.boolean (firstNonZero c)) = some v := by
    funext v c
    rw [Option.some.injEq, eq_comm (a := v)]
  have himp := @implements_primitive own (boolean [own])
    (fun c => some (Value.boolean (firstNonZero c)))
    (fun v => match v with | .boolean st => some [if st ≠ 0 then 0xff else 0] | _ => none) hown
  rw [BerType.boolean, hR]
  apply himp
  · intro m data
    rfl
  · intro v m t
    cases v <;> rfl
  · intro v c hv
    cases v with
    | long _ => cases hv
    | boolean st =>
        cases hv
        by_cases h0 : st = 0
        · rw [h0]
          rfl
        · simp only [ne_eq, h0, not_false_eq_true, if_true, Value.canon, if_false]
          rfl
    | octets _ => cases hv
    | struct _ => cases hv
    | choice _ _ => cases hv
  · intro v c hv
    cases hv
    exact ⟨_, rfl⟩

theorem returns_boolean (tags : List ℕ) (m : TagMode) :
    Returns ((boolean tags).berDecoder m) := by
  intro data h
  obtain h | ⟨c, n, -, h⟩ := Outcome.bind_eq_hang h
  · exact returns_decodeContents _ _ _ h
  · cases h

/-! ### OCTET STRING -/

/-- `struct _stack_el`: what is left of an element, or `-1`, what was processed of it, and whether
end-of-contents octets are awaited.  The depth is its position in the stack. -/
structure StackEl where
  left : ℤ
  got : ℕ
  wantNulls : ℕ
deriving DecidableEq, Repr

/-- `Left`: the octets that belong to the innermost element. -/
def stackWindow : List StackEl → List UInt8 → List UInt8
  | [], bufPtr => bufPtr
  | sel :: _, bufPtr => if sel.left < 0 then bufPtr else bufPtr.take sel.left.toNat

/-- Whether the innermost element has ended. -/
def finished : List StackEl → Bool
  | [] => false
  | sel :: _ => sel.left ≤ 0 ∧ sel.wantNulls = 0

/-- Whether the innermost element awaits end-of-contents octets. -/
def wantsNulls : List StackEl → Bool
  | [] => false
  | sel :: _ => sel.wantNulls ≠ 0

/-- The tag that a segment must have: any for the string itself, and inside of it the one for the
depth, or the last one. -/
def expectedTag (allTags : List ℕ) : List StackEl → ℕ → ℕ
  | [], tlvTag => tlvTag
  | _ :: below, tlvTag => (allTags[below.length]?.or allTags.getLast?).getD tlvTag

/-- The element of a tag and a length, as it is put on the stack. -/
def newElement (stack : List StackEl) (tlvLen : ℤ) (tlvl : ℕ) : StackEl where
  left :=
    match stack with
    | [] => tlvLen
    | prev :: _ => if prev.left ≠ -1 ∧ tlvLen = -1 then prev.left - tlvl else tlvLen
  got := tlvl
  wantNulls := if tlvLen = -1 then 1 else 0

/-- Whether the element around a new one is too small for it. -/
def frameTooSmall (stack : List StackEl) (tlvLen : ℤ) (tlvl : ℕ) : Bool :=
  match stack with
  | [] => false
  | prev :: _ => prev.left ≠ -1 ∧ prev.left < tlvl + (if tlvLen = -1 then 0 else tlvLen)

/-- End-of-contents octets are eaten. -/
def eatNulls : List StackEl → List StackEl
  | [] => []
  | sel :: below =>
      { left := if sel.wantNulls = 1 then 0 else if sel.left ≠ -1 then sel.left - 2 else sel.left
        got := sel.got + 2
        wantNulls := sel.wantNulls - 1 } :: below

/-- One round of phase 1, with phase 2 for a primitive segment: the new stack, and the octets that
are appended to the string. -/
def nextSegment (allTags : List ℕ) (stack : List StackEl) (bufPtr : List UInt8) :
    Outcome (List StackEl × List UInt8) :=
  (berFetchTag (stackWindow stack bufPtr)).bind fun tlvTag tl =>
    let tlvConstr := berTlvConstructed bufPtr
    (berFetchLength tlvConstr ((stackWindow stack bufPtr).drop tl)).bind fun tlvLen ll =>
      let tlvl := tl + ll
      if wantsNulls stack ∧ endOfContents bufPtr then
        .ok (eatNulls stack, []) 2
      else if tlvTag ≠ expectedTag allTags stack tlvTag then .fail
      else if 2 ^ 63 ≤ tlvLen + tlvl then .fail
      else if frameTooSmall stack tlvLen tlvl then .fail
      else if tlvConstr then .ok (newElement stack tlvLen tlvl :: stack, []) tlvl
      else
        let data := (bufPtr.drop tlvl).take tlvLen.toNat
        if data.length < tlvLen.toNat then .more
        else .ok (⟨0, tlvl + data.length, 0⟩ :: stack, data) (tlvl + data.length)

/-- What an element that ends adds to the one around it. -/
def StackEl.advance (sel : StackEl) (n : ℕ) : StackEl :=
  { sel with left := if sel.left ≠ -1 then sel.left - n else sel.left, got := sel.got + n }

/-- The loop over the segments; `fuel` bounds the rounds. -/
def decodeSegments (allTags : List ℕ) :
    (fuel : ℕ) → List StackEl → (buf : List UInt8) → (consumedMyself : ℕ) → List UInt8 →
      Outcome (List UInt8)
  | 0, _, _, _, _ => .hang
  | fuel + 1, stack, buf, consumed, bufPtr =>
      if finished stack then
        match stack with
        | sel :: prev :: below =>
            if prev.left ≠ -1 ∧ prev.left < sel.got then .fail
            else decodeSegments allTags fuel (prev.advance sel.got :: below) buf consumed bufPtr
        | _ => .ok buf consumed
      else
        (nextSegment allTags stack bufPtr).bind fun (stack, data) n =>
          decodeSegments allTags fuel stack (buf ++ data) (consumed + n) (bufPtr.drop n)

/-- `OCTET_STRING_decode_ber()`. -/
def octetStringDecodeBer (tags : List ℕ) (tagMode : TagMode) (bufPtr : List UInt8) :
    Outcome Value :=
  (berCheckTags tags tagMode none bufPtr).bind fun (left, tlvConstr) consumed =>
    if tlvConstr then
      -- the stack begins with the tag that was just checked
      (decodeSegments tags (2 * bufPtr.length + 2) [] [] 0 bufPtr).bind fun buf consumed =>
        .ok (.octets buf) consumed
    else
      let bufPtr := bufPtr.drop consumed
      if bufPtr.length < left.toNat then .more
      else .ok (.octets (bufPtr.take left.toNat)) (consumed + left.toNat)

/-- `OCTET_STRING_encode_der()`. -/
def octetStringEncodeDer (tags : List ℕ) (v : Value) (tagMode : TagMode) (tag : ℕ) : Encoder :=
  match v with
  | .octets st => derEncodePrimitive tags st tagMode tag
  | _ => fun _ => none

/-- The descriptor of OCTET STRING and of the string types that use its functions. -/
def octetString (tags : List ℕ) : TypeDescriptor where
  tags := tags
  berDecoder := octetStringDecodeBer tags
  derEncoder := octetStringEncodeDer tags

/-! ### Segments -/

/-- **The segments of a string**, each of them a primitive element or one of further segments, and
the octets that they hold. -/
inductive Segments (tag : ℕ) : List UInt8 → List UInt8 → Prop where
  | nil : Segments tag [] []
  | primitive {h l s es s' : List UInt8} (hi : Identifier false tag h)
      (hl : Definite s.length l) (hes : Segments tag es s') :
      Segments tag (h ++ l ++ s ++ es) (s ++ s')
  | definite {h l inner s es s' : List UInt8} (hi : Identifier true tag h)
      (hl : Definite inner.length l) (hin : Segments tag inner s) (hes : Segments tag es s') :
      Segments tag (h ++ l ++ inner ++ es) (s ++ s')
  | indefinite {h inner s es s' : List UInt8} (hi : Identifier true tag h)
      (hin : Segments tag inner s) (hes : Segments tag es s') :
      Segments tag (h ++ [0x80] ++ (inner ++ [0, 0]) ++ es) (s ++ s')

/-- The element has room for so many octets, or waits for the end of its contents. -/
def Room (sel : StackEl) (n : ℕ) : Prop :=
  (sel.left = -1 ∧ sel.wantNulls = 1) ∨ (n : ℤ) ≤ sel.left

section segments

variable {tag n : ℕ} {c : Bool} {h l es s data : List UInt8} {sel : StackEl}
  {stack below : List StackEl} {tags : List ℕ}

theorem Room.mono {k : ℕ} (hr : Room sel n) (hk : k ≤ n) : Room sel k := by
  rcases hr with hr | hr
  · exact .inl hr
  · exact .inr (by omega)

theorem Room.advance {k : ℕ} (hr : Room sel (k + n)) : Room (sel.advance k) n := by
  unfold Room StackEl.advance
  rcases hr with ⟨hl, hw⟩ | hr
  · left
    rw [if_neg (not_not.mpr hl)]
    exact ⟨hl, hw⟩
  · right
    have hne : sel.left ≠ -1 := by omega
    rw [if_pos hne]
    show (n : ℤ) ≤ sel.left - k
    omega

theorem StackEl.advance_zero (sel : StackEl) : sel.advance 0 = sel := by
  cases sel
  unfold StackEl.advance
  simp

theorem StackEl.advance_advance (hr : Room sel (n + k)) :
    (sel.advance n).advance k = sel.advance (n + k) := by
  cases sel with
  | mk left got wantNulls =>
    unfold StackEl.advance
    dsimp only
    congr 1
    · by_cases hl : left = -1
      · simp [hl]
      · rcases hr with ⟨hl', -⟩ | hr
        · exact absurd hl' hl
        · have hr' : ((n + k : ℕ) : ℤ) ≤ left := hr
          rw [if_pos hl, if_pos (by omega), if_pos hl]
          omega
    · exact Nat.add_assoc _ _ _

variable (below) in
theorem not_finished (hr : Room sel n) (hn : 0 < n) : finished (sel :: below) = false := by
  rw [finished, decide_eq_false_iff_not]
  rintro ⟨hl, hw⟩
  rcases hr with ⟨-, hw'⟩ | hr
  · omega
  · omega

variable (below) in
theorem window_append {x : List UInt8} (hr : Room sel x.length) (rest : List UInt8) :
    ∃ w, stackWindow (sel :: below) (x ++ rest) = x ++ w := by
  rw [stackWindow]
  split_ifs with hneg
  · exact ⟨rest, rfl⟩
  · rcases hr with ⟨hl, -⟩ | hr
    · omega
    · refine ⟨rest.take (sel.left.toNat - x.length), ?_⟩
      rw [List.take_append, List.take_of_length_le (by omega)]

variable (below) in
theorem window_self {x : List UInt8} (hr : Room sel x.length) :
    stackWindow (sel :: below) x = x := by
  rw [stackWindow]
  split_ifs with hneg
  · rfl
  · rcases hr with ⟨hl, -⟩ | hr
    · omega
    · exact List.take_of_length_le (by omega)

theorem expectedTag_single (stack : List StackEl) : expectedTag [tag] stack tag = tag := by
  rcases stack with _ | ⟨sel, _ | ⟨prev, below⟩⟩ <;> rfl

theorem not_endOfContents (hi : Identifier c tag h) (h0 : tag ≠ 0) (rest : List UInt8) :
    endOfContents (h ++ rest) = false := by
  obtain ⟨o, t, rfl, ho⟩ := hi.head_ne_zero h0
  exact endOfContents_cons ho _

variable (stack tags) in
/-- The header of a segment is read, and what comes next depends on its form. -/
theorem nextSegment_header {len : ℤ} {w x : List UInt8} (hi : Identifier c tag h) (h0 : tag ≠ 0)
    (hl : Reads (berFetchLength c) l len) (hexp : expectedTag tags stack tag = tag)
    (hmax : len + (h.length + l.length : ℕ) < 2 ^ 63)
    (hroom : frameTooSmall stack len (h.length + l.length) = false)
    (hw : stackWindow stack (h ++ (l ++ x)) = h ++ (l ++ w)) :
    nextSegment tags stack (h ++ (l ++ x)) =
      if c then
        .ok (newElement stack len (h.length + l.length) :: stack, []) (h.length + l.length)
      else if (x.take len.toNat).length < len.toNat then .more
      else .ok (⟨0, h.length + l.length + (x.take len.toNat).length, 0⟩ :: stack, x.take len.toNat)
        (h.length + l.length + (x.take len.toNat).length) := by
  have hend := not_endOfContents hi h0 (l ++ x)
  have hover : ¬(2 : ℤ) ^ 63 ≤ len + (h.length + l.length : ℕ) := Int.not_le.mpr hmax
  have hdrop : (h ++ (l ++ x)).drop (h.length + l.length) = x := by
    rw [← List.append_assoc, ← List.length_append, List.drop_left]
  unfold nextSegment
  rw [hw, hi.reads.complete, Outcome.bind_ok, hi.constructed_append, List.drop_left]
  dsimp only
  rw [hl.complete, Outcome.bind_ok, hend, hexp, hdrop]
  simp only [Bool.false_eq_true, and_false, if_false, ne_eq, not_true_eq_false, hover, hroom]

theorem nextSegment_cut {len : ℤ} {p q : List UInt8} (hi : Identifier c tag h)
    (hl : Reads (berFetchLength c) l len) (hw : stackWindow stack p = p) (hq : q ≠ [])
    (hpq : p ++ q = h ++ l) : nextSegment tags stack p = .more := by
  unfold nextSegment
  rw [hw]
  obtain ⟨r, hr, hp⟩ | ⟨p', rfl, hp'⟩ := append_cut hpq
  · rw [hi.reads.cut p r hr hp, Outcome.bind_more]
  · rw [hi.reads.complete, Outcome.bind_ok, List.drop_left, hi.constructed_append]
    dsimp only
    rw [hl.cut p' q hq hp', Outcome.bind_more]

/-! ### The rounds of the loop -/

theorem decodeSegments_next {fuel consumed k : ℕ} {buf : List UInt8} {stack' : List StackEl}
    {d : List UInt8} (hf : finished stack = false)
    (hn : nextSegment tags stack data = .ok (stack', d) k) :
    decodeSegments tags (fuel + 1) stack buf consumed data =
      decodeSegments tags fuel stack' (buf ++ d) (consumed + k) (data.drop k) := by
  show (if finished stack then _ else _) = _
  rw [hf, if_neg Bool.false_ne_true, hn, Outcome.bind_ok]

theorem decodeSegments_more {fuel consumed : ℕ} {buf : List UInt8} (hf : finished stack = false)
    (hn : nextSegment tags stack data = .more) :
    decodeSegments tags (fuel + 1) stack buf consumed data = .more := by
  show (if finished stack then _ else _) = _
  rw [hf, if_neg Bool.false_ne_true, hn, Outcome.bind_more]

theorem decodeSegments_pop {fuel consumed k : ℕ} {buf : List UInt8} (hr : Room sel k) :
    decodeSegments tags (fuel + 1) (⟨0, k, 0⟩ :: sel :: below) buf consumed data =
      decodeSegments tags fuel (sel.advance k :: below) buf consumed data := by
  have hok : ¬(sel.left ≠ -1 ∧ sel.left < (k : ℤ)) := by
    rintro ⟨hne, hlt⟩
    rcases hr with ⟨hl, -⟩ | hr
    · exact hne hl
    · omega
  rw [decodeSegments, if_pos (by rfl)]
  exact if_neg hok

theorem decodeSegments_done {fuel consumed k : ℕ} {buf : List UInt8} :
    decodeSegments tags (fuel + 1) [⟨0, k, 0⟩] buf consumed data = .ok buf consumed := rfl

variable (below tags) in
theorem nextSegment_nulls (hw : sel.wantNulls = 1) (hl : sel.left < 0 ∨ 2 ≤ sel.left)
    (rest : List UInt8) :
    nextSegment tags (sel :: below) (0 :: 0 :: rest) =
      .ok (⟨0, sel.got + 2, 0⟩ :: below, []) 2 := by
  have hwin : ∃ w, stackWindow (sel :: below) (0 :: 0 :: rest) = 0 :: 0 :: w := by
    rw [stackWindow]
    split_ifs with hneg
    · exact ⟨rest, rfl⟩
    · refine ⟨rest.take (sel.left.toNat - 2), ?_⟩
      rw [show sel.left.toNat = sel.left.toNat - 2 + 1 + 1 by omega, List.take_succ_cons,
        List.take_succ_cons]
      rfl
  obtain ⟨w, hwin⟩ := hwin
  have hwant : wantsNulls (sel :: below) = true := by
    rw [wantsNulls, hw]
    rfl
  have htag : berFetchTag (0 :: 0 :: w) = .ok 0 1 := rfl
  have hlen : berFetchLength false (0 :: w) = .ok 0 1 := rfl
  unfold nextSegment
  rw [hwin, htag, Outcome.bind_ok, List.drop_one, List.tail_cons]
  dsimp only
  rw [show berTlvConstructed (0 :: 0 :: rest) = false from rfl, hlen, Outcome.bind_ok, hwant,
    if_pos ⟨rfl, rfl⟩, eatNulls, if_pos hw, hw]

theorem nextSegment_nulls_cut (stack : List StackEl) {p : List UInt8} (hp : p = [] ∨ p = [0]) :
    nextSegment tags stack p = .more := by
  have hwin : stackWindow stack p = [] ∨ stackWindow stack p = [0] := by
    rcases stack with _ | ⟨sel, below⟩
    · exact hp
    · rw [stackWindow]
      split_ifs with hneg
      · exact hp
      · rcases hp with rfl | rfl
        · exact .inl List.take_nil
        · cases sel.left.toNat with
          | zero => exact .inl rfl
          | succ k =>
              right
              rw [List.take_succ_cons, List.take_nil]
  have hfetch : berFetchTag [0] = .ok 0 1 := rfl
  unfold nextSegment
  rcases hwin with hwin | hwin
  · rw [hwin]
    rfl
  · rw [hwin, hfetch, Outcome.bind_ok, List.drop_one]
    rfl

theorem frame_room {len : ℤ} {k : ℕ} (hr : Room sel n)
    (hk : (k : ℤ) + (if len = -1 then 0 else len) ≤ n) :
    frameTooSmall (sel :: below) len k = false := by
  rw [frameTooSmall, decide_eq_false_iff_not]
  rintro ⟨hne, hlt⟩
  rcases hr with ⟨hl, -⟩ | hr
  · exact hne hl
  · omega

theorem newElement_definite (stack : List StackEl) (n k : ℕ) :
    newElement stack (n : ℤ) k = ⟨n, k, 0⟩ := by
  have hne : ¬(n : ℤ) = -1 := by omega
  unfold newElement
  rw [if_neg hne]
  congr 1
  cases stack with
  | nil => rfl
  | cons prev below => exact if_neg fun h => hne h.2

variable (below) in
/-- An element of indefinite length has room for what fits the one around it. -/
theorem newElement_indefinite {k m : ℕ} (hr : Room sel (k + m)) :
    (newElement (sel :: below) (-1) k).wantNulls = 1 ∧
      (newElement (sel :: below) (-1) k).got = k ∧
      ((newElement (sel :: below) (-1) k).left = -1 ∨
        (m : ℤ) ≤ (newElement (sel :: below) (-1) k).left) := by
  refine ⟨rfl, rfl, ?_⟩
  show (if sel.left ≠ -1 ∧ (-1 : ℤ) = -1 then sel.left - k else -1) = -1 ∨
    (m : ℤ) ≤ if sel.left ≠ -1 ∧ (-1 : ℤ) = -1 then sel.left - k else -1
  rcases hr with ⟨hl, -⟩ | hr
  · exact .inl (if_neg fun h => h.1 hl)
  · rw [if_pos ⟨by omega, rfl⟩]
    right
    omega

theorem nulls_cut {p q : List UInt8} (hq : q ≠ []) (hpq : p ++ q = [0, 0]) : p = [] ∨ p = [0] := by
  rcases p with _ | ⟨a, _ | ⟨b, p⟩⟩
  · exact .inl rfl
  · rw [List.singleton_append, List.cons.injEq] at hpq
    right
    rw [hpq.1]
  · have hlen := congrArg List.length hpq
    have hpos := List.length_pos_of_ne_nil hq
    simp only [List.length_append, List.length_cons, List.length_nil] at hlen
    omega

variable (tag sel below) in
/-- The rounds of the loop for the octets `e`: the octets `s` that they hold are appended to the
string, and the element around them has advanced. -/
def Collects (e s : List UInt8) : Prop :=
  ∀ (buf : List UInt8) (consumed : ℕ) (rest : List UInt8), ∃ k ≤ 2 * e.length, ∀ fuel,
    decodeSegments [tag] (fuel + k) (sel :: below) buf consumed (e ++ rest) =
      decodeSegments [tag] fuel (sel.advance e.length :: below) (buf ++ s) (consumed + e.length)
        rest

variable (tag sel below) in
/-- With only these octets there the loop asks for more. -/
def Cuts (p : List UInt8) : Prop :=
  ∀ (buf : List UInt8) (consumed : ℕ), ∃ k ≤ 2 * p.length, ∀ fuel,
    decodeSegments [tag] (fuel + k + 1) (sel :: below) buf consumed p = .more

variable (tag sel below) in
theorem collects_nil : Collects tag sel below [] [] := by
  intro buf consumed rest
  refine ⟨0, le_rfl, fun fuel => ?_⟩
  rw [List.length_nil, StackEl.advance_zero, List.append_nil, List.nil_append]
  rfl

theorem Collects.append {e e' s' : List UInt8} (h₁ : Collects tag sel below e s)
    (h₂ : Collects tag (sel.advance e.length) below e' s') (hr : Room sel (e ++ e').length) :
    Collects tag sel below (e ++ e') (s ++ s') := by
  intro buf consumed rest
  rw [List.length_append] at hr ⊢
  obtain ⟨k₁, hk₁, hrun₁⟩ := h₁ buf consumed (e' ++ rest)
  obtain ⟨k₂, hk₂, hrun₂⟩ := h₂ (buf ++ s) (consumed + e.length) rest
  refine ⟨k₂ + k₁, by omega, fun fuel => ?_⟩
  rw [List.append_assoc, ← Nat.add_assoc, hrun₁, hrun₂, StackEl.advance_advance hr,
    List.append_assoc, Nat.add_assoc]

theorem Collects.cuts {e p : List UInt8} (h₁ : Collects tag sel below e s)
    (h₂ : Cuts tag (sel.advance e.length) below p) : Cuts tag sel below (e ++ p) := by
  intro buf consumed
  obtain ⟨k₁, hk₁, hrun⟩ := h₁ buf consumed p
  obtain ⟨k₂, hk₂, hcut⟩ := h₂ (buf ++ s) (consumed + e.length)
  refine ⟨k₂ + k₁, by rw [List.length_append]; omega, fun fuel => ?_⟩
  rw [show fuel + (k₂ + k₁) + 1 = fuel + k₂ + 1 + k₁ by omega, hrun, hcut]

theorem cuts_of_more {p : List UInt8} (hf : finished (sel :: below) = false)
    (hn : nextSegment [tag] (sel :: below) p = .more) : Cuts tag sel below p :=
  fun _ _ => ⟨0, Nat.zero_le _, fun _ => decodeSegments_more hf hn⟩

variable (below) in
theorem cuts_header {len : ℤ} {p q : List UInt8} (hi : Identifier c tag h)
    (hl : Reads (berFetchLength c) l len) (hr : Room sel (h.length + l.length)) (hq : q ≠ [])
    (hpq : p ++ q = h ++ l) : Cuts tag sel below p := by
  have hpos : 0 < h.length := List.length_pos_of_ne_nil (hi.reads.ne_nil rfl)
  have hlen := congrArg List.length hpq
  simp only [List.length_append] at hlen
  exact cuts_of_more (not_finished below hr (by omega))
    (nextSegment_cut hi hl (window_self below (hr.mono (by omega))) hq hpq)

variable (below) in
/-- The header of a segment with room for it is read. -/
theorem nextSegment_room {len : ℤ} (hi : Identifier c tag h) (h0 : tag ≠ 0)
    (hl : Reads (berFetchLength c) l len) (hmax : len + (h.length + l.length : ℕ) < 2 ^ 63)
    (hr : Room sel n) (hhl : h.length + l.length ≤ n)
    (hn : ((h.length + l.length : ℕ) : ℤ) + (if len = -1 then 0 else len) ≤ n) (x : List UInt8) :
    nextSegment [tag] (sel :: below) (h ++ (l ++ x)) =
      if c then
        .ok (newElement (sel :: below) len (h.length + l.length) :: sel :: below, [])
          (h.length + l.length)
      else if (x.take len.toNat).length < len.toNat then .more
      else .ok (⟨0, h.length + l.length + (x.take len.toNat).length, 0⟩ :: sel :: below,
        x.take len.toNat) (h.length + l.length + (x.take len.toNat).length) := by
  obtain ⟨w, hw⟩ := window_append below (x := h ++ l)
    (hr.mono (by rw [List.length_append]; exact hhl)) x
  rw [List.append_assoc, List.append_assoc] at hw
  exact nextSegment_header _ [tag] hi h0 hl (expectedTag_single _) hmax (frame_room hr hn) hw

/-- **A constructed segment is entered.** -/
theorem decodeSegments_enter {len : ℤ} {fuel consumed : ℕ} {buf : List UInt8}
    (hi : Identifier true tag h) (h0 : tag ≠ 0) (hl : Reads (berFetchLength true) l len)
    (hmax : len + (h.length + l.length : ℕ) < 2 ^ 63) (hr : Room sel n)
    (hhl : h.length + l.length ≤ n)
    (hn : ((h.length + l.length : ℕ) : ℤ) + (if len = -1 then 0 else len) ≤ n) (x : List UInt8) :
    decodeSegments [tag] (fuel + 1) (sel :: below) buf consumed (h ++ (l ++ x)) =
      decodeSegments [tag] fuel
        (newElement (sel :: below) len (h.length + l.length) :: sel :: below) buf
        (consumed + (h.length + l.length)) x := by
  have hpos : 0 < h.length := List.length_pos_of_ne_nil (hi.reads.ne_nil rfl)
  have hseg := nextSegment_room below hi h0 hl hmax hr hhl hn x
  rw [if_pos rfl] at hseg
  have hdrop : (h ++ (l ++ x)).drop (h.length + l.length) = x := by
    rw [← List.append_assoc, ← List.length_append, List.drop_left]
  rw [decodeSegments_next (not_finished below hr (by omega)) hseg, hdrop, List.append_nil]

/-! ### The three forms of a segment -/

theorem collects_primitive (h0 : tag ≠ 0) (hi : Identifier false tag h)
    (hl : Definite s.length l) (hr : Room sel (h ++ l ++ s).length) :
    Collects tag sel below (h ++ l ++ s) s := by
  intro buf consumed rest
  have hpos : 0 < h.length := List.length_pos_of_ne_nil (hi.reads.ne_nil rfl)
  have hhl := hi.length_le
  have hll := hl.length_le
  have hmax := hl.max
  simp only [List.length_append] at hr ⊢
  refine ⟨2, by omega, fun fuel => ?_⟩
  have hn := nextSegment_room below hi h0 (hl.reads false) (by omega) hr (by omega)
    (by split_ifs <;> omega) (s ++ rest)
  rw [if_neg Bool.false_ne_true, Int.toNat_natCast, List.take_left, if_neg (lt_irrefl _)] at hn
  have hsplit : h ++ l ++ s ++ rest = h ++ (l ++ (s ++ rest)) := by
    simp only [List.append_assoc]
  have hdrop : (h ++ (l ++ (s ++ rest))).drop (h.length + l.length + s.length) = rest := by
    rw [← hsplit, ← List.length_append, ← List.length_append, List.drop_left]
  rw [hsplit, decodeSegments_next (not_finished below hr (by omega)) hn, decodeSegments_pop hr,
    hdrop]

theorem cuts_primitive {p q : List UInt8} (h0 : tag ≠ 0) (hi : Identifier false tag h)
    (hl : Definite s.length l) (hr : Room sel (h ++ l ++ s).length) (hq : q ≠ [])
    (hpq : p ++ q = h ++ l ++ s) : Cuts tag sel below p := by
  have hpos : 0 < h.length := List.length_pos_of_ne_nil (hi.reads.ne_nil rfl)
  have hhl := hi.length_le
  have hll := hl.length_le
  have hmax := hl.max
  simp only [List.length_append] at hr
  obtain ⟨r, hrne, hp⟩ | ⟨p', rfl, hp'⟩ := append_cut hpq
  · exact cuts_header below hi (hl.reads false) (hr.mono (by omega)) hrne hp
  · have hshort : (p'.take s.length).length < s.length := by
      have hlen := congrArg List.length hp'
      have hqpos := List.length_pos_of_ne_nil hq
      rw [List.length_append] at hlen
      rw [List.length_take]
      omega
    have hn := nextSegment_room below hi h0 (hl.reads false) (by omega) hr (by omega)
      (by split_ifs <;> omega) p'
    rw [if_neg Bool.false_ne_true, Int.toNat_natCast, if_pos hshort, ← List.append_assoc] at hn
    exact cuts_of_more (not_finished below hr (by omega)) hn

theorem collects_definite {inner : List UInt8} (h0 : tag ≠ 0) (hi : Identifier true tag h)
    (hl : Definite inner.length l)
    (hin : Collects tag ⟨inner.length, h.length + l.length, 0⟩ (sel :: below) inner s)
    (hr : Room sel (h ++ l ++ inner).length) : Collects tag sel below (h ++ l ++ inner) s := by
  intro buf consumed rest
  have hpos : 0 < h.length := List.length_pos_of_ne_nil (hi.reads.ne_nil rfl)
  have hhl := hi.length_le
  have hll := hl.length_le
  have hmax := hl.max
  simp only [List.length_append] at hr ⊢
  obtain ⟨k, hk, hrun⟩ := hin buf (consumed + (h.length + l.length)) rest
  refine ⟨1 + k + 1, by omega, fun fuel => ?_⟩
  have hend : (⟨inner.length, h.length + l.length, 0⟩ : StackEl).advance inner.length =
      ⟨0, h.length + l.length + inner.length, 0⟩ := by
    unfold StackEl.advance
    dsimp only
    rw [if_pos (by omega), Int.sub_self]
  rw [show h ++ l ++ inner ++ rest = h ++ (l ++ (inner ++ rest)) by simp only [List.append_assoc],
    show fuel + (1 + k + 1) = fuel + 1 + k + 1 by omega,
    decodeSegments_enter hi h0 (hl.reads true) (by omega) hr (by omega)
      (by split_ifs <;> omega), newElement_definite, hrun, hend, decodeSegments_pop hr,
    Nat.add_assoc consumed]

theorem cuts_definite {inner p q : List UInt8} (h0 : tag ≠ 0) (hi : Identifier true tag h)
    (hl : Definite inner.length l)
    (hin : ∀ p, p ++ q = inner →
      Cuts tag ⟨inner.length, h.length + l.length, 0⟩ (sel :: below) p)
    (hr : Room sel (h ++ l ++ inner).length) (hpq : p ++ q = h ++ l ++ inner) :
    Cuts tag sel below p := by
  have hpos : 0 < h.length := List.length_pos_of_ne_nil (hi.reads.ne_nil rfl)
  have hhl := hi.length_le
  have hll := hl.length_le
  have hmax := hl.max
  simp only [List.length_append] at hr
  obtain ⟨r, hrne, hp⟩ | ⟨p', rfl, hp'⟩ := append_cut hpq
  · exact cuts_header below hi (hl.reads true) (hr.mono (by omega)) hrne hp
  · intro buf consumed
    obtain ⟨k, hk, hcut⟩ := hin p' hp' buf (consumed + (h.length + l.length))
    refine ⟨k + 1, by simp only [List.length_append]; omega, fun fuel => ?_⟩
    rw [← Nat.add_assoc, List.append_assoc,
      decodeSegments_enter hi h0 (hl.reads true) (by omega) hr (by omega)
        (by split_ifs <;> omega), newElement_definite, hcut]

variable (tag below) in
theorem newElement_spec {k m : ℕ} (hr : Room sel (k + m + 2)) :
    Room (newElement (sel :: below) (-1) k) m ∧
      finished ((newElement (sel :: below) (-1) k).advance m :: sel :: below) = false ∧
      ∀ rest, nextSegment [tag] ((newElement (sel :: below) (-1) k).advance m :: sel :: below)
        (0 :: 0 :: rest) = .ok (⟨0, k + m + 2, 0⟩ :: sel :: below, []) 2 := by
  obtain ⟨hwant, hgot, hleft⟩ := newElement_indefinite below (m := m + 2) hr
  generalize newElement (sel :: below) (-1) k = new at hwant hgot hleft
  have hadvwant : (new.advance m).wantNulls = 1 := hwant
  have hadvgot : (new.advance m).got + 2 = k + m + 2 := by
    show new.got + m + 2 = _
    rw [hgot]
  have hadvleft : (new.advance m).left < 0 ∨ 2 ≤ (new.advance m).left := by
    show (if new.left ≠ -1 then new.left - m else new.left) < 0 ∨
      2 ≤ if new.left ≠ -1 then new.left - m else new.left
    rcases hleft with hleft | hleft
    · rw [if_neg (not_not.mpr hleft), hleft]
      exact .inl (by decide)
    · rw [if_pos (by omega)]
      right
      omega
  refine ⟨?_, ?_, fun rest => ?_⟩
  · rcases hleft with hleft | hleft
    · exact .inl ⟨hleft, hwant⟩
    · exact .inr (by omega)
  · rw [finished, hadvwant]
    exact decide_eq_false fun h => absurd h.2 (by decide)
  · rw [nextSegment_nulls (sel :: below) [tag] hadvwant hadvleft rest, hadvgot]

theorem collects_indefinite {inner : List UInt8} (h0 : tag ≠ 0) (hi : Identifier true tag h)
    (hin : Collects tag (newElement (sel :: below) (-1) (h.length + 1)) (sel :: below) inner s)
    (hr : Room sel (h ++ [0x80] ++ (inner ++ [0, 0])).length) :
    Collects tag sel below (h ++ [0x80] ++ (inner ++ [0, 0])) s := by
  intro buf consumed rest
  have hhl := hi.length_le
  simp only [List.length_append, List.length_cons, List.length_nil] at hr ⊢
  obtain ⟨-, hnotend, hnulls⟩ := newElement_spec tag below
    (k := h.length + 1) (m := inner.length) hr
  obtain ⟨k, hk, hrun⟩ := hin buf (consumed + (h.length + 1)) (0 :: 0 :: rest)
  refine ⟨1 + 1 + k + 1, by omega, fun fuel => ?_⟩
  rw [show h ++ [0x80] ++ (inner ++ [0, 0]) ++ rest =
      h ++ ([0x80] ++ (inner ++ 0 :: 0 :: rest)) by
        simp only [List.append_assoc, List.cons_append, List.nil_append],
    show fuel + (1 + 1 + k + 1) = fuel + 1 + 1 + k + 1 by omega,
    decodeSegments_enter hi h0 reads_indefinite (by rw [List.length_singleton]; omega) hr
      (by rw [List.length_singleton]; omega)
      (by rw [if_pos rfl, List.length_singleton]; omega), List.length_singleton, hrun,
    decodeSegments_next hnotend (hnulls rest), decodeSegments_pop (hr.mono (by omega)),
    List.append_nil]
  congr 1
  omega

theorem cuts_indefinite {inner p q : List UInt8} (h0 : tag ≠ 0) (hi : Identifier true tag h)
    (hcol : Collects tag (newElement (sel :: below) (-1) (h.length + 1)) (sel :: below) inner s)
    (hcuts : ∀ p q, q ≠ [] → p ++ q = inner →
      Cuts tag (newElement (sel :: below) (-1) (h.length + 1)) (sel :: below) p)
    (hr : Room sel (h ++ [0x80] ++ (inner ++ [0, 0])).length) (hq : q ≠ [])
    (hpq : p ++ q = h ++ [0x80] ++ (inner ++ [0, 0])) : Cuts tag sel below p := by
  have hhl := hi.length_le
  have hpos : 0 < h.length := List.length_pos_of_ne_nil (hi.reads.ne_nil rfl)
  simp only [List.length_append, List.length_cons, List.length_nil] at hr
  obtain ⟨-, hnotend, -⟩ := newElement_spec tag below
    (k := h.length + 1) (m := inner.length) hr
  obtain ⟨r, hrne, hp⟩ | ⟨p', rfl, hp'⟩ := append_cut hpq
  · exact cuts_header below hi reads_indefinite
      (hr.mono (by rw [List.length_singleton]; omega)) hrne hp
  · have henter : ∀ fuel buf consumed,
        decodeSegments [tag] (fuel + 1) (sel :: below) buf consumed (h ++ [0x80] ++ p') =
          decodeSegments [tag] fuel
            (newElement (sel :: below) (-1) (h.length + 1) :: sel :: below) buf
            (consumed + (h.length + 1)) p' := by
      intro fuel buf consumed
      rw [List.append_assoc, decodeSegments_enter hi h0 reads_indefinite
        (by rw [List.length_singleton]; omega) hr (by rw [List.length_singleton]; omega)
        (by rw [if_pos rfl, List.length_singleton]; omega), List.length_singleton]
    -- the cut is in the contents, or in the zero octets behind them
    have hrest : Cuts tag (newElement (sel :: below) (-1) (h.length + 1)) (sel :: below) p' := by
      obtain ⟨r', hr', hpin⟩ | ⟨z, rfl, hz⟩ := append_cut hp'
      · exact hcuts p' r' hr' hpin
      · exact hcol.cuts (cuts_of_more hnotend (nextSegment_nulls_cut _ (nulls_cut hq hz)))
    intro buf consumed
    obtain ⟨k, hk, hcut⟩ := hrest buf (consumed + (h.length + 1))
    refine ⟨k + 1, by simp only [List.length_append]; omega, fun fuel => ?_⟩
    rw [← Nat.add_assoc, henter, hcut]

/-- **Segments are collected.** -/
theorem runs_segments (h0 : tag ≠ 0) (hs : Segments tag es s) :
    ∀ (sel : StackEl) (below : List StackEl), Room sel es.length →
      Collects tag sel below es s := by
  induction hs with
  | nil => exact fun sel below _ => collects_nil tag sel below
  | primitive hi hl hes ih =>
      intro sel below hr
      have hr' := hr
      rw [List.length_append] at hr'
      exact (collects_primitive h0 hi hl (hr'.mono (Nat.le_add_right _ _))).append
        (ih _ _ hr'.advance) hr
  | definite hi hl hin hes ihin ih =>
      intro sel below hr
      have hr' := hr
      rw [List.length_append] at hr'
      exact (collects_definite h0 hi hl (ihin _ _ (.inr le_rfl))
        (hr'.mono (Nat.le_add_right _ _))).append (ih _ _ hr'.advance) hr
  | @indefinite h inner s es s' hi hin hes ihin ih =>
      intro sel below hr
      have hr' := hr
      rw [List.length_append] at hr'
      have hroom := (newElement_spec tag below (k := h.length + 1) (m := inner.length)
        (hr'.mono (by simp only [List.length_append, List.length_cons, List.length_nil]; omega))).1
      exact (collects_indefinite h0 hi (ihin _ _ hroom)
        (hr'.mono (Nat.le_add_right _ _))).append (ih _ _ hr'.advance) hr

/-- **Segments of which some are missing**: the string asks for more. -/
theorem cuts_segments (h0 : tag ≠ 0) (hs : Segments tag es s) :
    ∀ (sel : StackEl) (below : List StackEl) (p q : List UInt8), q ≠ [] → p ++ q = es →
      Room sel es.length → Cuts tag sel below p := by
  induction hs with
  | nil =>
      intro sel below p q hq hpq
      exact absurd (List.append_eq_nil_iff.mp hpq).2 hq
  | primitive hi hl hes ih =>
      intro sel below p q hq hpq hr
      rw [List.length_append] at hr
      have hr₁ := hr.mono (Nat.le_add_right _ _)
      obtain ⟨r, hrne, hp⟩ | ⟨p', rfl, hp'⟩ := append_cut hpq
      · exact cuts_primitive h0 hi hl hr₁ hrne hp
      · exact (collects_primitive h0 hi hl hr₁).cuts (ih _ _ p' q hq hp' hr.advance)
  | definite hi hl hin hes ihin ih =>
      intro sel below p q hq hpq hr
      rw [List.length_append] at hr
      have hr₁ := hr.mono (Nat.le_add_right _ _)
      obtain ⟨r, hrne, hp⟩ | ⟨p', rfl, hp'⟩ := append_cut hpq
      · exact cuts_definite h0 hi hl (fun p' hpin => ihin _ _ p' r hrne hpin (.inr le_rfl)) hr₁ hp
      · exact (collects_definite h0 hi hl (runs_segments h0 hin _ _ (.inr le_rfl)) hr₁).cuts
          (ih _ _ p' q hq hp' hr.advance)
  | @indefinite h inner s es s' hi hin hes ihin ih =>
      intro sel below p q hq hpq hr
      rw [List.length_append] at hr
      have hr₁ := hr.mono (Nat.le_add_right _ _)
      have hroom := (newElement_spec tag below (k := h.length + 1) (m := inner.length)
        (hr₁.mono (by simp only [List.length_append, List.length_cons, List.length_nil]; omega))).1
      have hcol := runs_segments h0 hin _ (sel :: below) hroom
      obtain ⟨r, hrne, hp⟩ | ⟨p', rfl, hp'⟩ := append_cut hpq
      · exact cuts_indefinite h0 hi hcol
          (fun p' q' hq' hpin => ihin _ _ p' q' hq' hpin hroom) hr₁ hrne hp
      · exact (collects_indefinite h0 hi hcol hr₁).cuts (ih _ _ p' q hq hp' hr.advance)

/-! ### The whole string -/

theorem decodeSegments_complete {inner : List UInt8} {own : ℕ} (hown : own ≠ 0)
    (h0 : tag ≠ 0) (hs : Segments own inner s) (hb : Constructed tag inner data)
    (rest : List UInt8) {fuel : ℕ} (hfuel : 2 * data.length + 2 ≤ fuel) :
    decodeSegments [own] fuel [] [] 0 (data ++ rest) = .ok s data.length := by
  cases hb with
  | @definite h l hi hl =>
      have hhl := hi.length_le
      have hll := hl.length_le
      have hmax := hl.max
      have hpos : 0 < h.length := List.length_pos_of_ne_nil (hi.reads.ne_nil rfl)
      have hn := nextSegment_header [] [own] (x := inner ++ rest) hi h0
        (hl.reads true) rfl (by omega) rfl rfl
      rw [if_pos rfl, newElement_definite] at hn
      obtain ⟨k, hk, hrun⟩ := runs_segments hown hs ⟨inner.length, h.length + l.length, 0⟩ []
        (.inr le_rfl) [] (0 + (h.length + l.length)) rest
      have hend : (⟨inner.length, h.length + l.length, 0⟩ : StackEl).advance inner.length =
          ⟨0, h.length + l.length + inner.length, 0⟩ := by
        unfold StackEl.advance
        dsimp only
        rw [if_pos (by omega), Int.sub_self]
      have hdrop : (h ++ (l ++ (inner ++ rest))).drop (h.length + l.length) = inner ++ rest := by
        rw [← List.append_assoc, ← List.length_append, List.drop_left]
      simp only [List.length_append] at hfuel ⊢
      obtain ⟨f, rfl⟩ : ∃ f, fuel = f + 1 + k + 1 := ⟨fuel - (k + 2), by omega⟩
      rw [show h ++ l ++ inner ++ rest = h ++ (l ++ (inner ++ rest)) by
        simp only [List.append_assoc], decodeSegments_next rfl hn, hdrop, List.append_nil, hrun,
        hend, decodeSegments_done, List.nil_append, Nat.zero_add]
  | @indefinite h hi =>
      have hhl := hi.length_le
      have hpos : 0 < h.length := List.length_pos_of_ne_nil (hi.reads.ne_nil rfl)
      have hn := nextSegment_header [] [own] (x := inner ++ 0 :: 0 :: rest) hi
        h0 reads_indefinite rfl (by rw [List.length_singleton]; omega) rfl rfl
      rw [if_pos rfl, List.length_singleton] at hn
      have hnew : newElement [] (-1) (h.length + 1) = ⟨-1, h.length + 1, 1⟩ := rfl
      rw [hnew] at hn
      obtain ⟨k, hk, hrun⟩ := runs_segments hown hs ⟨-1, h.length + 1, 1⟩ [] (.inl ⟨rfl, rfl⟩) []
        (0 + (h.length + 1)) (0 :: 0 :: rest)
      have hadv : (⟨-1, h.length + 1, 1⟩ : StackEl).advance inner.length =
          ⟨-1, h.length + 1 + inner.length, 1⟩ := rfl
      have hneg : (⟨-1, h.length + 1 + inner.length, 1⟩ : StackEl).left < 0 := Int.negSucc_lt_zero 0
      have hnulls := nextSegment_nulls [] [own] rfl (.inl hneg) rest
      have hdrop : (h ++ ([0x80] ++ (inner ++ 0 :: 0 :: rest))).drop (h.length + 1) =
          inner ++ 0 :: 0 :: rest := by
        rw [← List.append_assoc, show h.length + 1 = (h ++ [(0x80 : UInt8)]).length by
          rw [List.length_append, List.length_singleton], List.drop_left]
      simp only [List.length_append, List.length_cons, List.length_nil] at hfuel ⊢
      obtain ⟨f, rfl⟩ : ∃ f, fuel = f + 1 + 1 + k + 1 := ⟨fuel - (k + 3), by omega⟩
      rw [show h ++ [0x80] ++ (inner ++ [0, 0]) ++ rest =
        h ++ ([0x80] ++ (inner ++ 0 :: 0 :: rest)) by
          simp only [List.append_assoc, List.cons_append, List.nil_append],
        decodeSegments_next rfl hn, hdrop, List.append_nil, hrun, hadv,
        decodeSegments_next rfl hnulls, decodeSegments_done, List.nil_append, List.append_nil]
      congr 1
      omega

theorem decodeSegments_cut {inner : List UInt8} {own : ℕ} (hown : own ≠ 0)
    (h0 : tag ≠ 0) (hs : Segments own inner s) (hb : Constructed tag inner data)
    {p q : List UInt8} (hq : q ≠ []) (hpq : p ++ q = data) {fuel : ℕ}
    (hfuel : 2 * p.length + 2 ≤ fuel) : decodeSegments [own] fuel [] [] 0 p = .more := by
  cases hb with
  | @definite h l hi hl =>
      have hhl := hi.length_le
      have hll := hl.length_le
      have hmax := hl.max
      have hpos : 0 < h.length := List.length_pos_of_ne_nil (hi.reads.ne_nil rfl)
      obtain ⟨r, hrne, hp⟩ | ⟨p', rfl, hp'⟩ := append_cut hpq
      · obtain ⟨f, rfl⟩ : ∃ f, fuel = f + 1 := ⟨fuel - 1, by omega⟩
        exact decodeSegments_more rfl (nextSegment_cut hi (hl.reads true) rfl hrne hp)
      simp only [List.length_append] at hfuel
      have hn := nextSegment_header [] [own] (x := p') hi h0
        (hl.reads true) rfl (by omega) rfl rfl
      rw [if_pos rfl, newElement_definite] at hn
      obtain ⟨k, hk, hcut⟩ := cuts_segments hown hs ⟨inner.length, h.length + l.length, 0⟩ [] p' q
        hq hp' (.inr le_rfl) [] (0 + (h.length + l.length))
      have hdrop : (h ++ (l ++ p')).drop (h.length + l.length) = p' := by
        rw [← List.append_assoc, ← List.length_append, List.drop_left]
      obtain ⟨f, rfl⟩ : ∃ f, fuel = f + k + 1 + 1 := ⟨fuel - (k + 2), by omega⟩
      rw [List.append_assoc, decodeSegments_next rfl hn, hdrop, List.append_nil, hcut]
  | @indefinite h hi =>
      have hhl := hi.length_le
      have hpos : 0 < h.length := List.length_pos_of_ne_nil (hi.reads.ne_nil rfl)
      obtain ⟨r, hrne, hp⟩ | ⟨p', rfl, hp'⟩ := append_cut hpq
      · obtain ⟨f, rfl⟩ : ∃ f, fuel = f + 1 := ⟨fuel - 1, by omega⟩
        exact decodeSegments_more rfl (nextSegment_cut hi reads_indefinite rfl hrne hp)
      simp only [List.length_append] at hfuel
      have hn := nextSegment_header [] [own] (x := p') hi
        h0 reads_indefinite rfl (by rw [List.length_singleton]; omega) rfl rfl
      rw [if_pos rfl, List.length_singleton] at hn
      have hnew : newElement [] (-1) (h.length + 1) = ⟨-1, h.length + 1, 1⟩ := rfl
      rw [hnew] at hn
      have hdrop : (h ++ ([0x80] ++ p')).drop (h.length + 1) = p' := by
        rw [← List.append_assoc, show h.length + 1 = (h ++ [(0x80 : UInt8)]).length by
          rw [List.length_append, List.length_singleton], List.drop_left]
      obtain ⟨r, hrne, hpin⟩ | ⟨z, rfl, hz⟩ := append_cut hp'
      · obtain ⟨k, hk, hcut⟩ := cuts_segments hown hs ⟨-1, h.length + 1, 1⟩ [] p' r hrne hpin
          (.inl ⟨rfl, rfl⟩) [] (0 + (h.length + 1))
        obtain ⟨f, rfl⟩ : ∃ f, fuel = f + k + 1 + 1 := ⟨fuel - (k + 2), by omega⟩
        rw [List.append_assoc, decodeSegments_next rfl hn, hdrop, List.append_nil, hcut]
      · obtain ⟨k, hk, hrun⟩ := runs_segments hown hs ⟨-1, h.length + 1, 1⟩ [] (.inl ⟨rfl, rfl⟩)
          [] (0 + (h.length + 1)) z
        rw [List.length_append] at hfuel
        obtain ⟨f, rfl⟩ : ∃ f, fuel = f + 1 + k + 1 := ⟨fuel - (k + 2), by omega⟩
        rw [List.append_assoc, decodeSegments_next rfl hn, hdrop, List.append_nil, hrun]
        exact decodeSegments_more rfl (nextSegment_nulls_cut _ (nulls_cut hq hz))

/-! ### Bounds -/

theorem length_window (stack : List StackEl) (data : List UInt8) :
    (stackWindow stack data).length ≤ data.length := by
  rcases stack with _ | ⟨sel, below⟩
  · exact le_rfl
  · rw [stackWindow]
    split_ifs
    · exact le_rfl
    · rw [List.length_take]
      exact Nat.min_le_right _ _

/-- A round takes at least two octets, and puts at most one element on the stack. -/
theorem nextSegment_bounds {r : List StackEl × List UInt8} {k : ℕ}
    (hn : nextSegment tags stack data = .ok r k) :
    2 ≤ k ∧ k ≤ data.length ∧ r.1.length ≤ stack.length + 1 := by
  unfold nextSegment at hn
  obtain ⟨tlvTag, tl, htag, hn⟩ := Outcome.bind_eq_ok hn
  obtain ⟨tlvLen, ll, hlen, hn⟩ := Outcome.bind_eq_ok hn
  have htl := fetchTag_bounds htag
  have hll := (fetchLength_bounds hlen).2
  have hw := length_window stack data
  rw [List.length_drop] at hll
  dsimp only at hn
  split at hn
  · cases hn
    refine ⟨le_rfl, by omega, ?_⟩
    rcases stack with _ | ⟨sel, below⟩
    · exact Nat.zero_le _
    · exact Nat.le_succ _
  · have hn := (Outcome.guard_eq_ok hn).2
    have hn := (Outcome.guard_eq_ok hn).2
    have hn := (Outcome.guard_eq_ok hn).2
    split_ifs at hn
    · cases hn
      exact ⟨by omega, by omega, le_rfl⟩
    · cases hn
      rw [List.length_take, List.length_drop]
      exact ⟨by omega, by omega, le_rfl⟩

theorem nextSegment_ne_hang (tags : List ℕ) (stack : List StackEl) (data : List UInt8) :
    nextSegment tags stack data ≠ .hang := by
  intro hn
  unfold nextSegment at hn
  obtain hn | ⟨tlvTag, tl, -, hn⟩ := Outcome.bind_eq_hang hn
  · exact returns_fetchTag _ hn
  obtain hn | ⟨tlvLen, ll, -, hn⟩ := Outcome.bind_eq_hang hn
  · exact returns_fetchLength _ _ hn
  dsimp only at hn
  split at hn
  · cases hn
  have hn := (Outcome.guard_eq_hang hn).2
  have hn := (Outcome.guard_eq_hang hn).2
  have hn := (Outcome.guard_eq_hang hn).2
  split_ifs at hn

theorem decodeSegments_bounds {fuel consumed k : ℕ} {buf : List UInt8}
    (hd : decodeSegments tags fuel stack buf consumed data = .ok s k) :
    k ≤ consumed + data.length := by
  induction fuel generalizing stack buf consumed data with
  | zero => cases hd
  | succ fuel ih =>
      unfold decodeSegments at hd
      split_ifs at hd
      · split at hd
        · exact ih (Outcome.guard_eq_ok hd).2
        · cases hd
          exact Nat.le_add_right _ _
      · obtain ⟨r, n, hn, hd⟩ := Outcome.bind_eq_ok hd
        have hb := nextSegment_bounds hn
        have := ih hd
        rw [List.length_drop] at this
        omega

/-- The loop ends: each round takes octets or an element from the stack. -/
theorem decodeSegments_ne_hang {fuel consumed : ℕ} {buf : List UInt8}
    (hfuel : data.length + stack.length < fuel) :
    decodeSegments tags fuel stack buf consumed data ≠ .hang := by
  induction fuel generalizing stack buf consumed data with
  | zero => omega
  | succ fuel ih =>
      intro hd
      unfold decodeSegments at hd
      split_ifs at hd
      · split at hd
        · refine ih ?_ (Outcome.guard_eq_hang hd).2
          simp only [List.length_cons] at hfuel ⊢
          omega
        · cases hd
      · obtain hd | ⟨r, n, hn, hd⟩ := Outcome.bind_eq_hang hd
        · exact nextSegment_ne_hang _ _ _ hd
        · have hb := nextSegment_bounds hn
          refine ih ?_ hd
          rw [List.length_drop]
          omega

end segments

/-! ### The type -/

/-- OCTET STRING: one primitive element, or a constructed one of segments. -/
def BerType.octetString (own : ℕ) : BerType where
  outer := fun m t => [outerTag own m t]
  Admits := SingleTag
  Encodes := fun m t v bs => SingleTag m t ∧ ∃ s, v = .octets s ∧
    (Primitive (outerTag own m t) s bs ∨
      ∃ inner, Segments own inner s ∧ Constructed (outerTag own m t) inner bs)

section octets

variable {own : ℕ} {m : TagMode} {t : ℕ} {s bs inner : List UInt8}

theorem octetString_primitive (hm : SingleTag m t) (hb : Primitive (outerTag own m t) s bs) :
    Reads (octetStringDecodeBer [own] m) bs (.octets s) := by
  obtain ⟨x, he, hx⟩ := expectedTags_single own hm
  obtain ⟨h, l, hi, hl, rfl⟩ := hb
  have hhead := checkTags_definite hi hl hx (.inl rfl : (none : Option Bool) = none ∨ _)
  rw [← he] at hhead
  constructor
  · intro rest
    have hlen : ¬(s ++ rest).length < s.length := by
      rw [List.length_append]
      omega
    rw [List.append_assoc, octetStringDecodeBer, berCheckTags, hhead.complete, Outcome.bind_ok]
    simp only [Bool.false_eq_true, if_false, List.drop_left, Int.toNat_natCast, hlen,
      List.take_left]
    rw [@List.length_append _ (h ++ l)]
  · intro p q hq hpq
    obtain ⟨r, hr, hp⟩ | ⟨p', rfl, hp'⟩ := append_cut hpq
    · rw [octetStringDecodeBer, berCheckTags, hhead.cut p r hr hp, Outcome.bind_more]
    · have hlen : p'.length < s.length := by
        have hpos := List.length_pos_of_ne_nil hq
        rw [← hp', List.length_append]
        omega
      rw [octetStringDecodeBer, berCheckTags, hhead.complete, Outcome.bind_ok]
      simp only [Bool.false_eq_true, if_false, List.drop_left, Int.toNat_natCast, hlen, if_true]

theorem Constructed.header {contents : List UInt8} {tag : ℕ} {x : Option ℕ} {form : Option Bool}
    (hb : Constructed tag contents bs) (hx : x = none ∨ x = some tag)
    (hf : form = none ∨ form = some true) :
    ∃ h tail left, bs = h ++ tail ∧
      Reads (checkTags form [x] none 0 false 0 0) h (left, true) := by
  cases hb with
  | definite hi hl => exact ⟨_, _, _, rfl, checkTags_definite hi hl hx hf⟩
  | indefinite hi => exact ⟨_, _, _, rfl, checkTags_indefinite hi hx hf⟩

theorem octetString_constructed (hown : IsTag own) (hm : SingleTag m t) (hs : Segments own inner s)
    (hb : Constructed (outerTag own m t) inner bs) :
    Reads (octetStringDecodeBer [own] m) bs (.octets s) := by
  obtain ⟨x, he, hx⟩ := expectedTags_single own hm
  have h0 := (hm.outerTag_ne_zero hown).1
  obtain ⟨h, tail, left, hbs, hhead⟩ := hb.header hx (.inl rfl : (none : Option Bool) = none ∨ _)
  rw [← he] at hhead
  constructor
  · intro rest
    have hfuel : 2 * bs.length + 2 ≤ 2 * (bs ++ rest).length + 2 := by
      rw [List.length_append]
      omega
    have hall := decodeSegments_complete hown.1 h0 hs hb rest hfuel
    rw [octetStringDecodeBer, hall, berCheckTags]
    rw [hbs, List.append_assoc, hhead.complete, Outcome.bind_ok]
    rfl
  · intro p q hq hpq
    rw [octetStringDecodeBer, berCheckTags]
    obtain ⟨r, hr, hp⟩ | ⟨p', rfl, hp'⟩ := append_cut (hpq.trans hbs)
    · rw [hhead.cut p r hr hp, Outcome.bind_more]
    · have hcut := decodeSegments_cut hown.1 h0 hs hb hq hpq (le_refl (2 * (h ++ p').length + 2))
      rw [hhead.complete, Outcome.bind_ok, hcut]
      rfl

/-- **Strings in one piece and in segments are read, and they are written in one piece.** -/
theorem octetString_implements (hown : IsTag own) :
    Implements (octetString [own]) (.octetString own) where
  reads := by
    rintro m t v bs ⟨hm, s, rfl, hb | ⟨inner, hs, hb⟩⟩
    · exact octetString_primitive hm hb
    · exact octetString_constructed hown hm hs hb
  begins := by
    rintro m t v bs ⟨hm, s, rfl, hb | ⟨inner, hs, hb⟩⟩
    · exact hb.begins (hm.outerTag_ne_zero hown).1
    · exact hb.begins (hm.outerTag_ne_zero hown).1
  encodes := by
    intro v m t hm
    cases v with
    | octets s =>
        right
        have hw := (derWriteTags_emits [own] s.length m false t).and (emits_emit s)
        rw [writtenTags_single hm] at hw
        exact ⟨_, hw, fun hmax => ⟨hm, s, rfl,
          .inl (primitive_tagOctets (hm.outerTag_ne_zero hown) hmax)⟩⟩
    | long _ => exact .inl fun _ => rfl
    | boolean _ => exact .inl fun _ => rfl
    | struct _ => exact .inl fun _ => rfl
    | choice _ _ => exact .inl fun _ => rfl
  decoded := by
    intro m t data v n hm hd
    obtain ⟨⟨left, c⟩, k, hc, hd⟩ := Outcome.bind_eq_ok hd
    have hemits : ∀ s : List UInt8, ∀ m' t', ∃ bs, Emits (derEncodePrimitive [own] s m' t') bs :=
      fun s m' t' => ⟨_, (derWriteTags_emits [own] s.length m' false t').and (emits_emit s)⟩
    dsimp only at hd
    split_ifs at hd with hconstr hlen
    · obtain ⟨s, k', hs, hd⟩ := Outcome.bind_eq_ok hd
      cases hd
      have := decodeSegments_bounds hs
      exact ⟨by omega, fun _ m' t' _ => hemits s m' t'⟩
    · cases hd
      have hk := checkTags_bounds hc
      rw [List.length_drop] at hlen
      exact ⟨by omega, fun _ m' t' _ => hemits _ m' t'⟩

theorem returns_octetString (tags : List ℕ) (m : TagMode) :
    Returns ((octetString tags).berDecoder m) := by
  intro data h
  obtain h | ⟨⟨left, c⟩, k, -, h⟩ := Outcome.bind_eq_hang h
  · exact returns_checkTags _ _ _ _ h
  · dsimp only at h
    split_ifs at h
    obtain h | ⟨s, k', -, h⟩ := Outcome.bind_eq_hang h
    · refine decodeSegments_ne_hang ?_ h
      rw [List.length_nil]
      omega
    · cases h

end octets

end Remsim.Ber
