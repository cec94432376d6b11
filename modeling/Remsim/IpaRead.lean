import Remsim.Worker

/-! # The IPA reader of the bankd workers (`blocking_ipa_read()`)

A message is a header of three octets, whose first two are the length of the body, and the body.
The reader asks `recv()` for the header, then for the body, and starts a call again when a signal
interrupts it.  The results of the calls of `recv()` are the input (`Recv`); a reader that has used
them up is still blocked.  The buffer is a list of octets of fixed length: octets that are stored
past its end are lost to the reader, and `Reading.asked` tells what `recv()` was allowed to store.

* `inside_iff`: the reader stays inside its buffer exactly when the length in the header does.
* `readsAll_iff`: a byte stream is taken apart into its messages exactly when each call of `recv()`
  returns a whole header or a whole body, and these fit the buffer. -/

namespace Remsim

/-- How a call of `recv()` returns: interrupted, with the state that the signal handlers have left
the worker in; failed; or with the octets that have arrived, of which it stores as many as it was
asked for.  No octets are the end of the stream. -/
inductive Recv where
  | eintr (state : WorkerState)
  | error
  | data (octets : List UInt8)
deriving DecidableEq, Repr

/-- A call of `recv()`: where in the buffer it stores, and how many octets at most. -/
structure Request where
  offset : ℕ
  size : ℕ
deriving DecidableEq, Repr

/-- A call of the reader: its result, if it has returned, the buffer, the calls of `recv()` and the
results that it has not used. -/
structure Reading where
  ret : Option ℤ
  buf : List UInt8
  asked : List Request
  rest : List Recv
deriving DecidableEq, Repr

/-- The reading goes on after a call of `recv()`. -/
def Reading.after (q : Request) (r : Reading) : Reading := { r with asked := q :: r.asked }

/-- `sizeof(struct ipaccess_head)`. -/
def headSize : ℕ := 3

/-- `ntohs(hh->len)`. -/
def headLen (buf : List UInt8) : ℕ := 256 * (buf.getD 0 0).toNat + (buf.getD 1 0).toNat

/-- Octets are stored in a buffer. -/
def store (buf : List UInt8) (off : ℕ) (octets : List UInt8) : List UInt8 :=
  (buf.take off ++ octets ++ buf.drop (off + octets.length)).take buf.length

/-- The part from one label of `blocking_ipa_read()` to the next: `n` octets are asked for, again
after each interruption, and `short` is returned if there are fewer. -/
def recvPart (off n : ℕ) (short : ℤ) (next : List UInt8 → List Recv → Reading) (buf : List UInt8) :
    List Recv → Reading
  | [] => ⟨none, buf, [⟨off, n⟩], []⟩
  | .eintr st :: rs =>
      if st = .connClientUnmapped then ⟨some (-23), buf, [⟨off, n⟩], rs⟩
      else (recvPart off n short next buf rs).after ⟨off, n⟩
  | .error :: rs => ⟨some (-1), buf, [⟨off, n⟩], rs⟩
  | .data octets :: rs =>
      let buf := store buf off (octets.take n)
      if (octets.take n).length < n then ⟨some short, buf, [⟨off, n⟩], rs⟩
      else (next buf rs).after ⟨off, n⟩

/-- `restart_body`. -/
def recvBody (len : ℕ) : List UInt8 → List Recv → Reading :=
  recvPart headSize len (-3) fun buf rs => ⟨some len, buf, [], rs⟩

/-- `blocking_ipa_read()`. -/
def blockingIpaRead (buf : List UInt8) (rs : List Recv) : Reading :=
  if buf.length < headSize then ⟨some (-1), buf, [], rs⟩
  else recvPart 0 headSize (-2) (fun buf rs => recvBody (headLen buf) buf rs) buf rs

/-! ### Storing -/

section store

variable {buf octets : List UInt8} {off : ℕ}

@[simp] theorem length_store (h : off ≤ buf.length) :
    (store buf off octets).length = buf.length := by
  simp only [store, List.length_take, List.length_append, List.length_drop]
  omega

theorem take_store_add (buf octets : List UInt8) (off : ℕ)
    (h : off + octets.length ≤ buf.length) :
    (store buf off octets).take (off + octets.length) = buf.take off ++ octets := by
  have hlen : (buf.take off ++ octets).length = off + octets.length := by
    rw [List.length_append, List.length_take, min_eq_left (by omega)]
  rw [store, List.take_take, min_eq_left h, ← hlen, List.take_left]

theorem headLen_store (h : headSize ≤ buf.length) (ho : octets.length = headSize) :
    headLen (store buf 0 octets) = headLen octets := by
  have htake : (store buf 0 octets).take headSize = octets := by
    have := take_store_add buf octets 0 (by omega)
    rwa [Nat.zero_add, ho, List.take_zero, List.nil_append] at this
  have hget : ∀ i < headSize, (store buf 0 octets).getD i 0 = octets.getD i 0 := by
    intro i hi
    have : (store buf 0 octets)[i]? = octets[i]? := by
      rw [← List.getElem?_take_of_lt hi, htake]
    rw [List.getD_eq_getElem?_getD, List.getD_eq_getElem?_getD, this]
  rw [headLen, headLen, hget 0 (by decide), hget 1 (by decide)]

end store

/-! ### One part of a message -/

/-- The first `n` octets to arrive, if one call of `recv()` returns them all and neither an error
nor the loss of the mapping comes before it, and the results after that call. -/
def arrival (n : ℕ) : List Recv → Option (List UInt8 × List Recv)
  | [] => none
  | .eintr st :: rs => if st = .connClientUnmapped then none else arrival n rs
  | .error :: _ => none
  | .data octets :: rs => if n ≤ octets.length then some (octets.take n, rs) else none

section part

variable (off : ℕ) {n : ℕ} (short : ℤ) (next : List UInt8 → List Recv → Reading)
  (buf : List UInt8) {p : List UInt8} {rs rs' : List Recv}

theorem length_arrival {n : ℕ} {p : List UInt8} {rs rs' : List Recv}
    (h : arrival n rs = some (p, rs')) : p.length = n := by
  induction rs with
  | nil => cases h
  | cons r rs ih =>
      cases r with
      | eintr st =>
          simp only [arrival, Option.ite_none_left_eq_some] at h
          exact ih h.2
      | error => cases h
      | data octets =>
          simp only [arrival, Option.ite_none_right_eq_some, Option.some.injEq, Prod.mk.injEq] at h
          rw [← h.2.1, List.length_take, min_eq_left h.1]

theorem recvPart_of_arrival (h : arrival n rs = some (p, rs')) :
    ∃ qs, qs ≠ [] ∧ (∀ q ∈ qs, q = ⟨off, n⟩) ∧ recvPart off n short next buf rs =
      { next (store buf off p) rs' with asked := qs ++ (next (store buf off p) rs').asked } := by
  induction rs with
  | nil => cases h
  | cons r rs ih =>
      cases r with
      | eintr st =>
          simp only [arrival, Option.ite_none_left_eq_some] at h
          obtain ⟨qs, _, hall, heq⟩ := ih h.2
          refine ⟨⟨off, n⟩ :: qs, List.cons_ne_nil _ _, List.forall_mem_cons.mpr ⟨rfl, hall⟩, ?_⟩
          rw [recvPart, if_neg h.1, heq]
          rfl
      | error => cases h
      | data octets =>
          simp only [arrival, Option.ite_none_right_eq_some, Option.some.injEq, Prod.mk.injEq] at h
          obtain ⟨hn, rfl, rfl⟩ := h
          refine ⟨[⟨off, n⟩], List.cons_ne_nil _ _, by simp, ?_⟩
          have hlen : ¬(octets.take n).length < n := by
            rw [List.length_take]
            omega
          simp only [recvPart, if_neg hlen]
          rfl

theorem recvPart_asks (rs : List Recv) :
    ⟨off, n⟩ ∈ (recvPart off n short next buf rs).asked := by
  cases rs with
  | nil => exact List.mem_singleton_self _
  | cons r rs =>
      cases r with
      | eintr st =>
          rw [recvPart]
          split_ifs
          · exact List.mem_singleton_self _
          · exact List.mem_cons_self
      | error => exact List.mem_singleton_self _
      | data octets =>
          simp only [recvPart]
          split_ifs
          · exact List.mem_singleton_self _
          · exact List.mem_cons_self

/-- The part does not arrive: the reader asks for nothing else and does not return success. -/
theorem recvPart_of_none (hs : short < 0) (h : arrival n rs = none) :
    (∀ q ∈ (recvPart off n short next buf rs).asked, q = ⟨off, n⟩) ∧
      ∀ k : ℕ, (recvPart off n short next buf rs).ret ≠ some (k : ℤ) := by
  induction rs with
  | nil => exact ⟨by simp [recvPart], by simp [recvPart]⟩
  | cons r rs ih =>
      cases r with
      | eintr st =>
          rw [arrival] at h
          rw [recvPart]
          split_ifs with hst
          · refine ⟨by simp, fun k hk => ?_⟩
            have := Option.some.inj hk
            omega
          · obtain ⟨hq, hk⟩ := ih (by rwa [if_neg hst] at h)
            exact ⟨List.forall_mem_cons.mpr ⟨rfl, hq⟩, hk⟩
      | error =>
          refine ⟨by simp [recvPart], fun k hk => ?_⟩
          have := Option.some.inj hk
          omega
      | data octets =>
          have hn : ¬n ≤ octets.length := by
            intro hn
            rw [arrival, if_pos hn] at h
            cases h
          have hlen : (octets.take n).length < n := by
            rw [List.length_take]
            omega
          simp only [recvPart, if_pos hlen]
          refine ⟨by simp, fun k hk => ?_⟩
          have := Option.some.inj hk
          omega

end part

/-! ### The buffer -/

/-- The header and `n` octets of the body have arrived and stand in the buffer. -/
def Stored (rs : List Recv) (r : Reading) (n : ℕ) : Prop :=
  ∃ h b rs', arrival headSize rs = some (h, rs') ∧ headLen h = n ∧
    arrival n rs' = some (b, r.rest) ∧ r.buf.take (headSize + n) = h ++ b

/-- The reader stays inside its buffer, and returns `n` only with a message stored. -/
def Inside (buf : List UInt8) (rs : List Recv) : Prop :=
  (∀ q ∈ (blockingIpaRead buf rs).asked, q.offset + q.size ≤ buf.length) ∧
    ∀ n : ℕ, (blockingIpaRead buf rs).ret = some (n : ℤ) → Stored rs (blockingIpaRead buf rs) n

variable {buf p : List UInt8} {rs rs' : List Recv}

theorem inside_of_none (h : headSize ≤ buf.length → arrival headSize rs = none) :
    Inside buf rs := by
  unfold Inside blockingIpaRead
  split_ifs with hsize
  · refine ⟨by simp, fun n hn => ?_⟩
    have := Option.some.inj hn
    omega
  · obtain ⟨hq, hk⟩ := recvPart_of_none 0 (-2)
      (fun buf rs => recvBody (headLen buf) buf rs) buf (by omega) (h (by omega))
    refine ⟨fun q hmem => ?_, fun n hn => absurd hn (hk n)⟩
    rw [hq q hmem]
    show 0 + headSize ≤ buf.length
    omega

/-- With a header the reader asks for a body of the length in the header. -/
theorem blockingIpaRead_of_arrival (hsize : headSize ≤ buf.length)
    (h : arrival headSize rs = some (p, rs')) :
    ∃ qs, (∀ q ∈ qs, q = ⟨0, headSize⟩) ∧ blockingIpaRead buf rs =
      { recvBody (headLen p) (store buf 0 p) rs' with
        asked := qs ++ (recvBody (headLen p) (store buf 0 p) rs').asked } := by
  obtain ⟨qs, _, hall, heq⟩ := recvPart_of_arrival 0 (-2)
    (fun buf rs => recvBody (headLen buf) buf rs) buf h
  refine ⟨qs, hall, ?_⟩
  rw [blockingIpaRead, if_neg (by omega), heq, headLen_store hsize (length_arrival h)]

theorem inside_of_fits (hsize : headSize ≤ buf.length)
    (h : arrival headSize rs = some (p, rs')) (hfits : headSize + headLen p ≤ buf.length) :
    Inside buf rs := by
  obtain ⟨qs, hall, heq⟩ := blockingIpaRead_of_arrival hsize h
  have hlen : (store buf 0 p).length = buf.length := length_store (Nat.zero_le _)
  have hhead : ∀ q ∈ qs, q.offset + q.size ≤ buf.length := by
    intro q hq
    rw [hall q hq]
    show 0 + headSize ≤ buf.length
    omega
  have hbody : ∀ q : Request, q = ⟨headSize, headLen p⟩ → q.offset + q.size ≤ buf.length := by
    rintro q rfl
    exact hfits
  unfold Inside
  rw [heq]
  cases hb : arrival (headLen p) rs' with
  | none =>
      obtain ⟨hq, hk⟩ := recvPart_of_none headSize (-3)
        (fun buf rs => ⟨some (headLen p), buf, [], rs⟩) (store buf 0 p) (by omega) hb
      refine ⟨fun q hmem => ?_, fun n hn => absurd hn (hk n)⟩
      rcases List.mem_append.mp hmem with hmem | hmem
      · exact hhead q hmem
      · exact hbody q (hq q hmem)
  | some x =>
      obtain ⟨b, rs''⟩ := x
      obtain ⟨qs', _, hall', heq'⟩ := recvPart_of_arrival headSize (-3)
        (fun buf rs => ⟨some (headLen p), buf, [], rs⟩) (store buf 0 p) hb
      rw [recvBody, heq']
      refine ⟨fun q hmem => ?_, fun n hn => ?_⟩
      · rw [List.append_nil] at hmem
        rcases List.mem_append.mp hmem with hmem | hmem
        · exact hhead q hmem
        · exact hbody q (hall' q hmem)
      · obtain rfl : headLen p = n := by exact_mod_cast Option.some.inj hn
        refine ⟨p, b, rs', h, rfl, hb, ?_⟩
        have hp := length_arrival h
        have hblen := length_arrival hb
        have hput := take_store_add (store buf 0 p) b headSize
          (by rw [hblen, hlen]; exact hfits)
        have hfront := take_store_add buf p 0 (by omega)
        rw [Nat.zero_add, hp, List.take_zero, List.nil_append] at hfront
        rw [hblen, hfront] at hput
        exact hput

/-- **The reader stays inside its buffer exactly when every header that arrives gives a length that
fits the buffer behind the header.** -/
theorem inside_iff (buf : List UInt8) (rs : List Recv) :
    Inside buf rs ↔ ∀ p rs', headSize ≤ buf.length → arrival headSize rs = some (p, rs') →
      headSize + headLen p ≤ buf.length := by
  constructor
  · rintro ⟨hin, _⟩ p rs' hsize h
    obtain ⟨qs, _, heq⟩ := blockingIpaRead_of_arrival hsize h
    rw [heq] at hin
    refine hin ⟨headSize, headLen p⟩ (List.mem_append_right _ ?_)
    exact recvPart_asks _ _ _ _ _
  · intro hfits
    by_cases hsize : headSize ≤ buf.length
    · cases h : arrival headSize rs with
      | none => exact inside_of_none fun _ => h
      | some x => exact inside_of_fits hsize h (hfits x.1 x.2 hsize h)
    · exact inside_of_none fun hs => absurd hs hsize

/-- A peer sends a header with the greatest length: 65535 octets are asked for at offset 3 of the
buffer of 65536 octets that `worker_transceive_loop()` passes. -/
theorem greatestLength_overruns : ¬Inside (List.replicate 65536 0) [.data [0xff, 0xff, 0x00]] := by
  rintro ⟨hin, _⟩
  obtain ⟨qs, _, heq⟩ := blockingIpaRead_of_arrival (p := [0xff, 0xff, 0x00])
    (show headSize ≤ (List.replicate 65536 (0 : UInt8)).length by
      rw [List.length_replicate]; decide)
    (show arrival headSize [.data [0xff, 0xff, 0x00]] = some (_, []) from rfl)
  rw [heq] at hin
  have hask : (⟨3, 65535⟩ : Request).offset + (⟨3, 65535⟩ : Request).size ≤ _ :=
    hin ⟨3, 65535⟩ (List.mem_append_right _ (recvPart_asks _ _ _ _ _))
  rw [List.length_replicate] at hask
  exact absurd hask (by decide)

/-! ### Messages in a byte stream -/

/-- A well-formed IPA message. -/
structure IpaMsg where
  proto : UInt8
  body : List UInt8
  length_body_lt : body.length < 2 ^ 16

namespace IpaMsg

variable (m : IpaMsg)

/-- The header. -/
def head : List UInt8 := [.ofNat (m.body.length / 256), .ofNat (m.body.length % 256), m.proto]

/-- The two parts that the reader asks for. -/
def parts : List (List UInt8) := [m.head, m.body]

/-- The message as it is sent. -/
def octets : List UInt8 := m.head ++ m.body

theorem headLen_head : headLen m.head = m.body.length := by
  have h := m.length_body_lt
  show 256 * (UInt8.ofNat (m.body.length / 256)).toNat + (UInt8.ofNat (m.body.length % 256)).toNat
    = m.body.length
  rw [UInt8.toNat_ofNat', UInt8.toNat_ofNat']
  omega

end IpaMsg

/-- The data among the results of `recv()`. -/
def chunks (rs : List Recv) : List (List UInt8) :=
  rs.filterMap fun | .data octets => some octets | _ => none

/-- The parts `ps` arrive, each in one or more pieces of at least one octet, with interruptions that
do not take the mapping.  A piece does not reach into the next part, for which the reader has not
asked yet; for a body without octets a call returns none. -/
inductive Delivers : List (List UInt8) → List Recv → Prop
  | nil : Delivers [] []
  | eintr {ps : List (List UInt8)} {rs : List Recv} {st : WorkerState} :
      st ≠ .connClientUnmapped → Delivers ps rs → Delivers ps (.eintr st :: rs)
  | part {ps : List (List UInt8)} {rs : List Recv} {c p : List UInt8} :
      c ≠ [] → p ≠ [] → Delivers (p :: ps) rs → Delivers ((c ++ p) :: ps) (.data c :: rs)
  | whole {ps : List (List UInt8)} {rs : List Recv} {p : List UInt8} :
      Delivers ps rs → Delivers (p :: ps) (.data p :: rs)

/-- The message that a call has read. -/
def Reading.message (r : Reading) : Option (List UInt8) :=
  match r.ret with
  | some (.ofNat n) => some (r.buf.take (headSize + n))
  | _ => none

/-- What `n` successive calls read. -/
def successive : ℕ → List UInt8 → List Recv → List (Option (List UInt8))
  | 0, _, _ => []
  | n + 1, buf, rs =>
      let r := blockingIpaRead buf rs
      r.message :: successive n r.buf r.rest

/-- The messages arrive in one piece for each part. -/
def onePiece (msgs : List IpaMsg) : List Recv := (msgs.flatMap IpaMsg.parts).map Recv.data

/-- The calls return exactly the messages, as they do when nothing is cut. -/
def ReadsAll (buf : List UInt8) (msgs : List IpaMsg) (rs : List Recv) : Prop :=
  successive msgs.length buf rs = msgs.map (fun m => some m.octets) ∧
    successive msgs.length buf rs = successive msgs.length buf (onePiece msgs)

variable {ps : List (List UInt8)} {m : IpaMsg} {msgs : List IpaMsg}

theorem Reading.message_eq_none {r : Reading} (h : ∀ k : ℕ, r.ret ≠ some (k : ℤ)) :
    r.message = none := by
  unfold message
  split
  · next n heq => exact absurd heq (h n)
  · rfl

/-- Either the first part arrives in one piece, or its first piece is too short. -/
theorem Delivers.arrival_cases (h : Delivers (p :: ps) rs) :
    (∃ rs', arrival p.length rs = some (p, rs') ∧ Delivers ps rs' ∧
      chunks rs = p :: chunks rs') ∨
    (arrival p.length rs = none ∧ ∀ cs, chunks rs ≠ p :: cs) := by
  generalize hq : p :: ps = qs at h
  induction h with
  | nil => cases hq
  | @eintr qs rs st hst h ih =>
      rw [arrival, if_neg hst]
      exact ih hq
  | @part qs rs c q hc hp h ih =>
      obtain ⟨rfl, rfl⟩ := List.cons.inj hq
      have hpos := List.length_pos_of_ne_nil hp
      refine .inr ⟨?_, fun cs hcs => ?_⟩
      · rw [arrival, if_neg (by rw [List.length_append]; omega)]
      · have hlen := congrArg List.length (List.cons.inj hcs).1
        rw [List.length_append] at hlen
        omega
  | @whole qs rs q h ih =>
      obtain ⟨rfl, rfl⟩ := List.cons.inj hq
      refine .inl ⟨rs, ?_, h, rfl⟩
      rw [arrival, if_pos (Nat.le_refl _), List.take_length]

theorem read_message (hsize : headSize ≤ buf.length) (h : Delivers (m.head :: m.body :: ps) rs) :
    (∃ rs', (blockingIpaRead buf rs).rest = rs' ∧ Delivers ps rs' ∧
      (blockingIpaRead buf rs).buf.length = buf.length ∧
      chunks rs = m.head :: m.body :: chunks rs' ∧
      ((blockingIpaRead buf rs).message = some m.octets ↔
        headSize + m.body.length ≤ buf.length)) ∨
    ((blockingIpaRead buf rs).message = none ∧ ∀ cs, chunks rs ≠ m.head :: m.body :: cs) := by
  rcases h.arrival_cases with ⟨rs₁, h₁, hd₁, hc₁⟩ | ⟨h₁, hc₁⟩
  · obtain ⟨qs, _, heq⟩ := blockingIpaRead_of_arrival hsize h₁
    rw [m.headLen_head] at heq
    have hlen : (store buf 0 m.head).length = buf.length := length_store (Nat.zero_le _)
    rcases hd₁.arrival_cases with ⟨rs₂, h₂, hd₂, hc₂⟩ | ⟨h₂, hc₂⟩
    · obtain ⟨qs', _, _, heq'⟩ := recvPart_of_arrival headSize (-3)
        (fun buf rs => ⟨some m.body.length, buf, [], rs⟩) (store buf 0 m.head) h₂
      rw [recvBody, heq'] at heq
      have hlen' : (store (store buf 0 m.head) headSize m.body).length = buf.length := by
        rw [length_store (by rw [hlen]; exact hsize), hlen]
      refine .inl ⟨rs₂, by rw [heq], hd₂, by rw [heq]; exact hlen', by rw [hc₁, hc₂], ?_⟩
      have hmsg : (blockingIpaRead buf rs).message = some
          ((store (store buf 0 m.head) headSize m.body).take (headSize + m.body.length)) := by
        rw [heq]
        rfl
      rw [hmsg, Option.some.injEq]
      constructor
      · intro hoct
        have hl := congrArg List.length hoct
        rw [List.length_take, hlen', IpaMsg.octets, List.length_append] at hl
        have : m.head.length = headSize := rfl
        omega
      · intro hfits
        have hfront := take_store_add buf m.head 0 (by rw [Nat.zero_add]; exact hsize)
        rw [Nat.zero_add, List.take_zero, List.nil_append] at hfront
        rw [take_store_add _ _ _ (by rw [hlen]; exact hfits)]
        exact congrArg (· ++ m.body) hfront
    · refine .inr ⟨?_, fun cs hcs => ?_⟩
      · obtain ⟨_, hk⟩ := recvPart_of_none headSize (-3)
          (fun buf rs => ⟨some m.body.length, buf, [], rs⟩) (store buf 0 m.head) (by omega) h₂
        rw [heq]
        exact Reading.message_eq_none hk
      · rw [hc₁] at hcs
        exact hc₂ cs (List.cons.inj hcs).2
  · refine .inr ⟨?_, fun cs => hc₁ _⟩
    obtain ⟨_, hk⟩ := recvPart_of_none 0 (-2)
      (fun buf rs => recvBody (headLen buf) buf rs) buf (by omega) h₁
    rw [blockingIpaRead, if_neg (by omega)]
    exact Reading.message_eq_none hk

/-- The calls return the messages exactly when no part is cut and every message fits. -/
theorem successive_eq_iff (h : Delivers (msgs.flatMap IpaMsg.parts) rs) :
    successive msgs.length buf rs = msgs.map (fun m => some m.octets) ↔
      chunks rs = msgs.flatMap IpaMsg.parts ∧
        ∀ m ∈ msgs, headSize + m.body.length ≤ buf.length := by
  induction msgs generalizing buf rs with
  | nil =>
      have hnil : chunks rs = [] := by
        generalize hps : ([] : List IpaMsg).flatMap IpaMsg.parts = ps at h
        induction h with
        | nil => rfl
        | eintr _ _ ih => exact ih hps
        | part => cases hps
        | whole => cases hps
      exact iff_of_true rfl ⟨hnil, by simp⟩
  | cons m ms ih =>
      rw [List.flatMap_cons, List.length_cons, List.map_cons, List.forall_mem_cons]
      rw [List.flatMap_cons] at h
      simp only [successive, List.cons.injEq]
      by_cases hsize : headSize ≤ buf.length
      · rcases read_message hsize h with ⟨rs', rfl, hd, hlen, hc, hmsg⟩ | ⟨hmsg, hc⟩
        · rw [hmsg, ih hd, hlen, hc, IpaMsg.parts]
          simp only [List.cons_append, List.nil_append, List.cons.injEq, true_and]
          exact ⟨fun ⟨h₁, h₂, h₃⟩ => ⟨h₂, h₁, h₃⟩, fun ⟨h₂, h₁, h₃⟩ => ⟨h₁, h₂, h₃⟩⟩
        · rw [hmsg]
          exact iff_of_false (fun e => Option.some_ne_none _ e.1.symm) fun e => hc _ e.1
      · refine iff_of_false (fun e => ?_) fun e => hsize (le_of_add_le_left e.2.1)
        have hnone : (blockingIpaRead buf rs).message = none := by
          rw [blockingIpaRead, if_pos (by omega)]
          rfl
        rw [hnone] at e
        exact Option.some_ne_none _ e.1.symm

theorem delivers_data (ps : List (List UInt8)) : Delivers ps (ps.map Recv.data) := by
  induction ps with
  | nil => exact .nil
  | cons p ps ih => exact .whole ih

theorem chunks_data (ps : List (List UInt8)) : chunks (ps.map Recv.data) = ps := by
  rw [chunks, List.filterMap_map]
  exact List.filterMap_some

/-- **A byte stream is read as its messages exactly when it is cut between headers and bodies only
and every message fits the buffer.** -/
theorem readsAll_iff (buf : List UInt8) (msgs : List IpaMsg) (rs : List Recv)
    (h : Delivers (msgs.flatMap IpaMsg.parts) rs) :
    ReadsAll buf msgs rs ↔ chunks rs = msgs.flatMap IpaMsg.parts ∧
      ∀ m ∈ msgs, headSize + m.body.length ≤ buf.length := by
  refine ⟨fun hr => (successive_eq_iff h).mp hr.1, fun hc => ?_⟩
  have hread := (successive_eq_iff h).mpr hc
  refine ⟨hread, hread.trans (Eq.symm ?_)⟩
  exact (successive_eq_iff (delivers_data _)).mpr ⟨chunks_data _, hc.2⟩

/-- The CCM message PING. -/
def ping : IpaMsg := ⟨0xfe, [0x00], by decide⟩

theorem interrupted_readsAll : ReadsAll (List.replicate 8 0) [ping]
    [.eintr .connClientMapped, .data [0x00, 0x01, 0xfe], .eintr .connClientMapped, .data [0x00]] :=
  (readsAll_iff _ [ping] _ (.eintr (by decide) (.whole (.eintr (by decide)
    (.whole .nil))))).mpr ⟨rfl, by decide⟩

/-- The header arrives in two pieces: the first one is taken for the end of the connection. -/
theorem cutHeader_lost :
    Delivers ([ping].flatMap IpaMsg.parts) [.data [0x00], .data [0x01, 0xfe], .data [0x00]] ∧
      ¬ReadsAll (List.replicate 65536 0) [ping]
        [.data [0x00], .data [0x01, 0xfe], .data [0x00]] := by
  constructor
  · exact .part (c := [0x00]) (p := [0x01, 0xfe]) (by decide) (by decide)
      (.whole (.whole .nil))
  · rintro ⟨h, _⟩
    have hnone : (blockingIpaRead (List.replicate 65536 0)
        [.data [0x00], .data [0x01, 0xfe], .data [0x00]]).message = none := by
      rw [blockingIpaRead, if_neg (by rw [List.length_replicate]; decide)]
      rfl
    exact Option.some_ne_none _ ((List.cons.inj h).1.symm.trans hnone)

end Remsim
