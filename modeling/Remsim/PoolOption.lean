import Remsim.CString
import Remsim.KiProxy
import Remsim.Lists

/-! # The pool of the KI proxy (`-S`, `--ki-proxy-slots`)

The option takes a list of slots and of ranges of slots between commas.  `handleKiProxySlots` is
the case `'S'` of `handle_options()`: the fields are cut out with `strtok_r()`, a field is a range
when it has a dash, and its numbers are read with `atoi()`.  Of the slots only as many as fit into
`temp_slots` are taken.

`poolGrammar` is the syntax that is documented for the option, with the pool that an argument
stands for.  `follows_iff`: the program follows it exactly when the argument is grammatical and
its slots fit, or when it is not and a field is refused that is read before `temp_slots` is full.
The pool is the one that `worker_handle_ki_proxy()` selects from (`selected_named`). -/

namespace Remsim.Bankd

open CString Decimal ListLib

/-! ### The program -/

/-- `sizeof(temp_slots) / sizeof(temp_slots[0])`. -/
def tempSlots : ℕ := 1024

/-- One field between commas: the slots it stands for, or what is printed before `exit(2)`. -/
def poolToken (token : List UInt8) : Except String (List ℕ) :=
  match strchr 45 token with
  | some (before, after) =>
      let start := atoi before
      let stop := atoi after
      if start < 0 ∨ stop > 1023 ∨ start > stop then
        .error s!"Error: Invalid KI Proxy slot range {start}-{stop}"
      else .ok (List.range' start.toNat (stop + 1 - start).toNat)
  | none =>
      let slot := atoi token
      if slot < 0 ∨ slot > 1023 then .error "Error: KI Proxy slot must be 0-1023"
      else .ok [slot.toNat]

/-- `temp_slots[count++] = i`, while `count` is below the size of the array. -/
def pushSlot (slots : List ℕ) (i : ℕ) : List ℕ :=
  if slots.length < tempSlots then slots ++ [i] else slots

/-- The loop over the fields. -/
def poolLoop : List (List UInt8) → List ℕ → Except String (List ℕ)
  | [], slots => .ok slots
  | token :: tokens, slots =>
      if slots.length < tempSlots then
        match poolToken token with
        | .ok xs => poolLoop tokens (xs.foldl pushSlot slots)
        | .error e => .error e
      else .ok slots

/-- The pool after an option `-S`; the pool that there was before stays when nothing is read. -/
def handleKiProxySlots (proxySlots : List ℕ) (optarg : List UInt8) : Except String (List ℕ) :=
  match poolLoop (strtok 44 optarg) [] with
  | .ok slots => .ok (if 0 < slots.length then slots else proxySlots)
  | .error e => .error e

/-! ### The syntax of the option -/

/-- A decimal number from 0 to 1023. -/
def poolNumber (s : List UInt8) : Option ℕ :=
  if IsNumber s ∧ value s ≤ 1023 then some (value s) else none

/-- A number, or a range of numbers. -/
def poolItem (s : List UInt8) : Option (List ℕ) :=
  match strchr 45 s with
  | none => (poolNumber s).map fun n => [n]
  | some (before, after) =>
      match poolNumber before, poolNumber after with
      | some a, some b => if a ≤ b then some (List.range' a (b + 1 - a)) else none
      | _, _ => none

/-- A list of items between commas, and the pool it stands for. -/
def poolGrammar (optarg : List UInt8) : Option (List ℕ) :=
  ((optarg.splitOn 44).mapM poolItem).map List.flatten

/-- A slot that an item of the string names. -/
def Named (optarg : List UInt8) (slot : ℕ) : Prop :=
  ∃ item ∈ optarg.splitOn 44, ∃ xs, poolItem item = some xs ∧ slot ∈ xs

/-- The option is treated as documented. -/
structure Follows (proxySlots : List ℕ) (optarg : List UInt8) : Prop where
  installed : ∀ pool, poolGrammar optarg = some pool →
    handleKiProxySlots proxySlots optarg = .ok pool
  refused : poolGrammar optarg = none → ∃ e, handleKiProxySlots proxySlots optarg = .error e
  named : ∀ pool, handleKiProxySlots proxySlots optarg = .ok pool →
    ∀ slot ∈ pool, Named optarg slot

example : poolGrammar (ascii "1-3,7") = some [1, 2, 3, 7] := by decide +kernel

/-! ### Fields -/

/-- The numbers that `atoi()` reads in a field. -/
def tokenBounds (token : List UInt8) : ℤ × ℤ :=
  match strchr 45 token with
  | some (before, after) => (atoi before, atoi after)
  | none => (atoi token, atoi token)

/-- The numbers of the field are out of range or out of order. -/
def Refused (token : List UInt8) : Prop :=
  (tokenBounds token).1 < 0 ∨ 1023 < (tokenBounds token).2 ∨
    (tokenBounds token).2 < (tokenBounds token).1

instance (token : List UInt8) : Decidable (Refused token) := inferInstanceAs (Decidable (_ ∨ _))

/-- How many slots the field stands for. -/
def slotCount (token : List UInt8) : ℕ := ((tokenBounds token).2 + 1 - (tokenBounds token).1).toNat

theorem poolToken_refused {token : List UInt8} (h : Refused token) :
    ∃ e, poolToken token = .error e := by
  unfold Refused tokenBounds at h
  unfold poolToken
  cases hd : strchr 45 token with
  | some p =>
      rw [hd] at h
      exact ⟨_, if_pos h⟩
  | none =>
      rw [hd] at h
      simp only at h
      exact ⟨_, if_pos (by omega)⟩

theorem poolToken_ok {token : List UInt8} (h : ¬Refused token) :
    ∃ xs, poolToken token = .ok xs ∧ xs.length = slotCount token ∧ 0 < xs.length := by
  unfold Refused tokenBounds at h
  unfold poolToken slotCount tokenBounds
  cases hd : strchr 45 token with
  | some p =>
      rw [hd] at h
      refine ⟨_, if_neg h, List.length_range', ?_⟩
      rw [List.length_range']
      simp only at h
      omega
  | none =>
      rw [hd] at h
      simp only at h
      refine ⟨_, if_neg (by omega), ?_, Nat.one_pos⟩
      simp only [List.length_singleton]
      omega

theorem isNumber_of_poolNumber {s : List UInt8} {n : ℕ} (h : poolNumber s = some n) :
    IsNumber s ∧ atoi s = n ∧ n ≤ 1023 := by
  unfold poolNumber at h
  split_ifs at h with hs
  obtain rfl := Option.some.inj h
  exact ⟨hs.1, atoi_of_isNumber hs.1 (by omega), hs.2⟩

/-- What the syntax makes of an item, the program makes of it. -/
theorem poolToken_of_item {s : List UInt8} {xs : List ℕ} (h : poolItem s = some xs) :
    poolToken s = .ok xs := by
  unfold poolItem at h
  unfold poolToken
  cases hd : strchr 45 s with
  | none =>
      rw [hd] at h
      simp only at h ⊢
      obtain ⟨n, hn, rfl⟩ := Option.map_eq_some_iff.mp h
      obtain ⟨-, hatoi, hle⟩ := isNumber_of_poolNumber hn
      rw [hatoi, if_neg (by omega), Int.toNat_natCast]
  | some p =>
      rw [hd] at h
      simp only at h ⊢
      cases ha : poolNumber p.1 with
      | none => rw [ha] at h; exact absurd h (by simp)
      | some a =>
          cases hb : poolNumber p.2 with
          | none => rw [ha, hb] at h; exact absurd h (by simp)
          | some b =>
              rw [ha, hb] at h
              simp only [Option.ite_none_right_eq_some, Option.some.injEq] at h
              obtain ⟨hle, rfl⟩ := h
              obtain ⟨-, hstart, -⟩ := isNumber_of_poolNumber ha
              obtain ⟨-, hstop, hmax⟩ := isNumber_of_poolNumber hb
              have hlen : ((b : ℤ) + 1 - a).toNat = b + 1 - a := by omega
              rw [hstart, hstop, if_neg (by omega), hlen, Int.toNat_natCast]

theorem poolItem_ne_nil {s : List UInt8} {xs : List ℕ} (h : poolItem s = some xs) : s ≠ [] := by
  rintro rfl
  exact absurd (show poolItem [] = none by decide) (by rw [h]; exact Option.some_ne_none xs)

theorem not_refused {token : List UInt8} {xs : List ℕ} (h : poolToken token = .ok xs) :
    ¬Refused token := by
  intro hr
  obtain ⟨e, he⟩ := poolToken_refused hr
  rw [he] at h
  exact absurd h (by simp)

/-! ### The loop -/

theorem foldl_pushSlot (xs slots : List ℕ) (h : slots.length ≤ tempSlots) :
    xs.foldl pushSlot slots = (slots ++ xs).take tempSlots := by
  induction xs generalizing slots with
  | nil => rw [List.foldl_nil, List.append_nil, List.take_of_length_le h]
  | cons x xs ih =>
      rw [List.foldl_cons, pushSlot]
      split_ifs with hlt
      · have hlen : (slots ++ [x]).length ≤ tempSlots := by
          rw [List.length_append, List.length_singleton]
          omega
        rw [ih _ hlen, List.append_assoc, List.singleton_append]
      · have heq : slots.length = tempSlots := by omega
        rw [ih _ h, ← heq, List.take_left, List.take_left]

/-- Items are taken one after the other, as long as there is room. -/
theorem poolLoop_items (tokens : List (List UInt8)) (xss : List (List ℕ)) (slots : List ℕ)
    (h : tokens.mapM poolItem = some xss) (hroom : slots.length ≤ tempSlots) :
    poolLoop tokens slots = .ok ((slots ++ xss.flatten).take tempSlots) := by
  induction tokens generalizing xss slots with
  | nil =>
      rw [List.mapM_nil] at h
      obtain rfl := Option.some.inj h
      rw [poolLoop, List.flatten_nil, List.append_nil, List.take_of_length_le hroom]
  | cons token tokens ih =>
      rw [List.mapM_cons] at h
      obtain ⟨xs, hxs, h⟩ := Option.bind_eq_some_iff.mp h
      obtain ⟨xss, hxss, h⟩ := Option.bind_eq_some_iff.mp h
      obtain rfl := Option.some.inj h
      rw [poolLoop, List.flatten_cons, ← List.append_assoc]
      split_ifs with hlt
      · rw [poolToken_of_item hxs]
        simp only
        rw [foldl_pushSlot _ _ hroom, ih _ _ hxss (List.length_take_le _ _), take_append_take]
      · have heq : slots.length = tempSlots := by omega
        rw [List.append_assoc, ← heq, List.take_left]

/-- **The fields are refused exactly when one is that is read before `temp_slots` is full.** -/
theorem poolLoop_error_iff (tokens : List (List UInt8)) (slots : List ℕ)
    (hroom : slots.length ≤ tempSlots) :
    (∃ e, poolLoop tokens slots = .error e) ↔
      ∃ pre token post, tokens = pre ++ token :: post ∧ Refused token ∧
        slots.length + (pre.map slotCount).sum < tempSlots := by
  induction tokens generalizing slots with
  | nil =>
      constructor
      · rintro ⟨e, he⟩
        exact absurd he (by simp [poolLoop])
      · rintro ⟨pre, token, post, heq, -⟩
        exact absurd heq (by simp)
  | cons t tokens ih =>
      rw [poolLoop]
      by_cases hlt : slots.length < tempSlots
      · rw [if_pos hlt]
        by_cases hr : Refused t
        · obtain ⟨e, he⟩ := poolToken_refused hr
          rw [he]
          exact iff_of_true ⟨e, rfl⟩ ⟨[], t, tokens, rfl, hr, hlt⟩
        · obtain ⟨xs, hxs, hlen, -⟩ := poolToken_ok hr
          rw [hxs]
          simp only
          rw [foldl_pushSlot _ _ hroom, ih _ (List.length_take_le _ _), List.length_take,
            List.length_append, hlen]
          constructor
          · rintro ⟨pre, token, post, rfl, htok, hsum⟩
            refine ⟨t :: pre, token, post, rfl, htok, ?_⟩
            rw [List.map_cons, List.sum_cons]
            omega
          · rintro ⟨pre, token, post, heq, htok, hsum⟩
            cases pre with
            | nil => exact absurd ((List.cons.inj heq).1 ▸ htok) hr
            | cons p pre =>
                obtain ⟨rfl, rfl⟩ := List.cons.inj heq
                rw [List.map_cons, List.sum_cons] at hsum
                exact ⟨pre, token, post, rfl, htok, by omega⟩
      · rw [if_neg hlt]
        constructor
        · rintro ⟨e, he⟩
          exact absurd he (by simp)
        · rintro ⟨pre, token, post, -, -, hsum⟩
          omega

/-! ### The option -/

/-- All the slots of a grammatical argument fit into `temp_slots`. -/
def Fits (optarg : List UInt8) : Prop :=
  ∃ pool, poolGrammar optarg = some pool ∧ pool.length ≤ tempSlots

/-- The argument is not grammatical, and a field of it is refused while there is room in
`temp_slots`. -/
def RefusedInTime (optarg : List UInt8) : Prop :=
  poolGrammar optarg = none ∧ ∃ pre token post,
    strtok 44 optarg = pre ++ token :: post ∧ Refused token ∧
      (pre.map slotCount).sum < tempSlots

theorem handleKiProxySlots_error_iff (proxySlots : List ℕ) (optarg : List UInt8) :
    (∃ e, handleKiProxySlots proxySlots optarg = .error e) ↔
      ∃ e, poolLoop (strtok 44 optarg) [] = .error e := by
  unfold handleKiProxySlots
  cases poolLoop (strtok 44 optarg) [] with
  | ok slots => simp
  | error e => simp

theorem pool_ne_nil {optarg : List UInt8} {pool : List ℕ} (h : poolGrammar optarg = some pool) :
    pool ≠ [] := by
  obtain ⟨xss, hxss, rfl⟩ := Option.map_eq_some_iff.mp h
  cases hs : optarg.splitOn 44 with
  | nil => exact absurd hs (List.splitOnP_ne_nil _ _)
  | cons s ss =>
      rw [hs, List.mapM_cons] at hxss
      obtain ⟨xs, hxs, hxss⟩ := Option.bind_eq_some_iff.mp hxss
      obtain ⟨yss, -, hxss⟩ := Option.bind_eq_some_iff.mp hxss
      obtain rfl := Option.some.inj hxss
      have htok := poolToken_of_item hxs
      obtain ⟨ys, hys, -, hpos⟩ := poolToken_ok (not_refused htok)
      obtain rfl := Except.ok.inj (htok.symm.trans hys)
      rw [List.flatten_cons]
      exact List.append_ne_nil_of_left_ne_nil (List.length_pos_iff.mp hpos) _

/-- **Of the slots of a grammatical argument, those that fit into `temp_slots` are installed.** -/
theorem handleKiProxySlots_grammar (proxySlots : List ℕ) {optarg : List UInt8} {pool : List ℕ}
    (h : poolGrammar optarg = some pool) :
    handleKiProxySlots proxySlots optarg = .ok (pool.take tempSlots) := by
  have hpos := List.length_pos_iff.mpr (pool_ne_nil h)
  obtain ⟨xss, hxss, rfl⟩ := Option.map_eq_some_iff.mp h
  have hne : ∀ s ∈ optarg.splitOn 44, s ≠ [] := by
    intro s hs
    obtain ⟨xs, -, hxs⟩ := exists_of_mapM hxss hs
    exact poolItem_ne_nil hxs
  have hloop := poolLoop_items _ _ [] hxss (Nat.zero_le _)
  rw [List.nil_append] at hloop
  unfold handleKiProxySlots
  rw [strtok_of_ne_nil hne, hloop]
  simp only
  rw [if_pos]
  rw [List.length_take]
  have : 0 < tempSlots := by decide
  omega

theorem named_of_mem {optarg : List UInt8} {pool : List ℕ} (h : poolGrammar optarg = some pool)
    {slot : ℕ} (hslot : slot ∈ pool) : Named optarg slot := by
  obtain ⟨xss, hxss, rfl⟩ := Option.map_eq_some_iff.mp h
  obtain ⟨xs, hxs, hmem⟩ := List.mem_flatten.mp hslot
  obtain ⟨s, hs, hitem⟩ := exists_of_mem_mapM hxss hxs
  exact ⟨s, hs, xs, hitem, hmem⟩

/-- **Of the pool of a grammatical argument the KI proxy selects only slots that are named in it.** -/
theorem selected_named {proxySlots p pool : List ℕ} {optarg : List UInt8} {numSlots idx pos : ℕ}
    (hg : poolGrammar optarg = some pool) (h : handleKiProxySlots proxySlots optarg = .ok p)
    (hidx : idx < p.length) (hpos : (kiProxySelection p numSlots idx).position = some pos) :
    Named optarg (p.getD pos 0) := by
  obtain ⟨-, k, hk, rfl, -⟩ := (kiProxySelection_sound numSlots hidx).first pos hpos
  have hlt : (idx + k) % p.length < p.length := Nat.mod_lt _ (by omega)
  have hp := Except.ok.inj (h.symm.trans (handleKiProxySlots_grammar proxySlots hg))
  rw [List.getD_eq_getElem _ _ hlt]
  refine named_of_mem hg (List.mem_of_mem_take (i := tempSlots) ?_)
  rw [← hp]
  exact List.getElem_mem hlt

/-- **The option is treated as documented exactly when its slots fit, or when a field of an
ungrammatical argument is refused in time.** -/
theorem follows_iff (proxySlots : List ℕ) (optarg : List UInt8) :
    Follows proxySlots optarg ↔ Fits optarg ∨ RefusedInTime optarg := by
  have herror : (∃ e, handleKiProxySlots proxySlots optarg = .error e) ↔ _ :=
    (handleKiProxySlots_error_iff proxySlots optarg).trans
      (poolLoop_error_iff (strtok 44 optarg) [] (Nat.zero_le _))
  simp only [List.length_nil, Nat.zero_add] at herror
  cases hg : poolGrammar optarg with
  | none =>
      constructor
      · intro h
        exact .inr ⟨hg, herror.mp (h.refused hg)⟩
      · rintro (⟨pool, hpool, -⟩ | ⟨-, htokens⟩)
        · exact absurd (hg.symm.trans hpool) (by simp)
        · obtain ⟨e, he⟩ := herror.mpr htokens
          refine ⟨fun pool hpool => ?_, fun _ => ⟨e, he⟩, fun pool hpool => ?_⟩
          · exact absurd (hg.symm.trans hpool) (by simp)
          · exact absurd (he.symm.trans hpool) (by simp)
  | some pool =>
      have hrun := handleKiProxySlots_grammar proxySlots hg
      constructor
      · intro h
        have heq := Except.ok.inj (hrun.symm.trans (h.installed pool hg))
        exact .inl ⟨pool, hg, List.take_eq_self_iff _ |>.mp heq⟩
      · rintro (⟨pool', hpool, hfits⟩ | ⟨hnone, -⟩)
        · obtain rfl := Option.some.inj (hg.symm.trans hpool)
          rw [List.take_of_length_le hfits] at hrun
          refine ⟨fun p hp => ?_, fun hnone => ?_, fun p hp slot hslot => ?_⟩
          · obtain rfl := Option.some.inj (hg.symm.trans hp)
            exact hrun
          · exact absurd (hg.symm.trans hnone) (by simp)
          · obtain rfl := Except.ok.inj (hrun.symm.trans hp)
            exact named_of_mem hg hslot
        · exact absurd (hg.symm.trans hnone) (by simp)

/-- `12,x` installs the slots 12 and 0. -/
theorem letter_isSlotZero : ¬∀ proxySlots optarg, Follows proxySlots optarg := by
  intro h
  obtain ⟨e, he⟩ := (h [] (ascii "12,x")).refused (by decide +kernel)
  have hrun : handleKiProxySlots [] (ascii "12,x") = .ok [12, 0] := by decide +kernel
  exact absurd (hrun.symm.trans he) (by simp)

end Remsim.Bankd
