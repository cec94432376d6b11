import Remsim.Decimal

/-! # Character strings of C

A string is the list of its octets without the NUL that ends it; `cstr` is the string in a buffer.
The functions of the C library on strings are written as functions on these lists: `strchr` cuts a
string at a character, `strstr` finds the first place where a string occurs, `strtok` splits a
string into its non-empty fields, and `fgetsAll` reads a file line by line. -/

namespace CString

/-- A string of ASCII characters. -/
def ascii (s : String) : List UInt8 := s.toList.map fun c => .ofNat c.toNat

/-- The string in a buffer: its octets before the first NUL. -/
def cstr (buf : List UInt8) : List UInt8 := buf.takeWhile (· ≠ 0)

theorem cstr_append {s : List UInt8} (h : 0 ∉ s) (t : List UInt8) :
    cstr (s ++ t) = s ++ cstr t := by
  refine List.takeWhile_append_of_pos fun c hc => ?_
  rw [decide_eq_true_eq]
  rintro rfl
  exact h hc

theorem cstr_append_zero {s : List UInt8} (h : 0 ∉ s) (t : List UInt8) :
    cstr (s ++ 0 :: t) = s := by
  rw [cstr_append h, cstr, List.takeWhile_cons_of_neg (by decide), List.append_nil]

theorem zero_notMem_cstr (buf : List UInt8) : 0 ∉ cstr buf := by
  intro h
  have := List.mem_takeWhile_imp h
  rw [decide_eq_true_eq] at this
  exact this rfl

theorem cstr_eq_self {s : List UInt8} (h : 0 ∉ s) : cstr s = s := by
  rw [cstr, List.takeWhile_eq_self_iff]
  intro c hc
  rw [decide_eq_true_eq]
  rintro rfl
  exact h hc

theorem length_cstr_lt {buf : List UInt8} (h : 0 ∈ buf) : (cstr buf).length < buf.length := by
  refine lt_of_le_of_ne (List.takeWhile_sublist _).length_le fun heq => ?_
  have hbuf := (List.takeWhile_sublist _).eq_of_length heq
  exact zero_notMem_cstr buf (by rw [cstr, hbuf]; exact h)

/-! ### Characters -/

/-- `strchr()`: what stands before the first place of a character, and after it. -/
def strchr (c : UInt8) (s : List UInt8) : Option (List UInt8 × List UInt8) :=
  if c ∈ s then some (s.takeWhile (· ≠ c), (s.dropWhile (· ≠ c)).tail) else none

/-- `strtok_r()` until it returns `NULL`: the fields between the separators that are not empty. -/
def strtok (c : UInt8) (s : List UInt8) : List (List UInt8) := (s.splitOn c).filter (· ≠ [])

/-- What is left of a string when it is cut at the first place of a character. -/
theorem strchr_getD (c : UInt8) (s : List UInt8) :
    ((strchr c s).map Prod.fst).getD s = s.takeWhile (· ≠ c) := by
  unfold strchr
  split_ifs with h
  · rfl
  · refine (List.takeWhile_eq_self_iff.mpr fun d hd => ?_).symm
    rw [decide_eq_true_eq]
    rintro rfl
    exact h hd

theorem strchr_append {c : UInt8} {a : List UInt8} (h : c ∉ a) (b : List UInt8) :
    strchr c (a ++ c :: b) = some (a, b) := by
  have hne : ∀ d ∈ a, decide (d ≠ c) = true := fun d hd =>
    decide_eq_true fun heq => h (heq ▸ hd)
  have hstop : ¬decide (c ≠ c) = true := fun hc => of_decide_eq_true hc rfl
  have htake : (c :: b).takeWhile (· ≠ c) = [] := List.takeWhile_cons_of_neg hstop
  have hdrop : (c :: b).dropWhile (· ≠ c) = c :: b := List.dropWhile_cons_of_neg hstop
  rw [strchr, if_pos (List.mem_append_right a List.mem_cons_self),
    List.takeWhile_append_of_pos hne, htake, List.append_nil, List.dropWhile_append_of_pos hne,
    hdrop, List.tail_cons]

theorem strtok_of_ne_nil {c : UInt8} {s : List UInt8} (h : ∀ t ∈ s.splitOn c, t ≠ []) :
    strtok c s = s.splitOn c :=
  List.filter_eq_self.mpr fun t ht => decide_eq_true (h t ht)

theorem strtok_intercalate {c : UInt8} {fields : List (List UInt8)} (h : ∀ f ∈ fields, c ∉ f) :
    strtok c (List.intercalate [c] fields) = fields.filter (· ≠ []) := by
  by_cases hne : fields = []
  · rw [hne]
    rfl
  · rw [strtok, List.splitOn_intercalate c h hne]

/-! ### Lines -/

/-- `fgets()` with room for as many characters: the line that it reads, and the rest of the file. -/
def fgets : ℕ → List UInt8 → List UInt8 × List UInt8
  | 0, s => ([], s)
  | _, [] => ([], [])
  | n + 1, c :: s =>
      if c = 10 then ([c], s)
      else ((c :: (fgets n s).1), (fgets n s).2)

/-- What `fgets()` reads from a file, call by call, with as many calls as the second argument
allows. -/
def fgetsAll (n : ℕ) : ℕ → List UInt8 → List (List UInt8)
  | 0, _ => []
  | k + 1, s => if s = [] then [] else (fgets n s).1 :: fgetsAll n k (fgets n s).2

/-- A line that ends where a line ends, and only there. -/
def IsLine (line : List UInt8) : Prop := ∃ body, line = body ++ [10] ∧ 10 ∉ body

theorem fgets_line {n : ℕ} {body : List UInt8} (h : 10 ∉ body) (hlen : body.length < n)
    (s : List UInt8) : fgets n (body ++ 10 :: s) = (body ++ [10], s) := by
  induction body generalizing n with
  | nil =>
      cases n with
      | zero => exact absurd hlen (Nat.not_lt_zero _)
      | succ n => exact if_pos rfl
  | cons c body ih =>
      cases n with
      | zero => exact absurd hlen (Nat.not_lt_zero _)
      | succ n =>
          obtain ⟨hc, hbody⟩ := not_or.mp (mt List.mem_cons.mpr h)
          rw [List.length_cons] at hlen
          rw [List.cons_append, fgets, if_neg (Ne.symm hc), ih hbody (by omega), List.cons_append]

theorem fgets_last {n : ℕ} {s : List UInt8} (h : 10 ∉ s) (hlen : s.length ≤ n) :
    fgets n s = (s, []) := by
  induction s generalizing n with
  | nil =>
      cases n with
      | zero => rfl
      | succ n => rfl
  | cons c s ih =>
      cases n with
      | zero => exact absurd hlen (Nat.not_succ_le_zero _)
      | succ n =>
          obtain ⟨hc, hs⟩ := not_or.mp (mt List.mem_cons.mpr h)
          rw [List.length_cons] at hlen
          rw [fgets, if_neg (Ne.symm hc), ih hs (by omega)]

theorem fgetsAll_nil (n k : ℕ) : fgetsAll n k [] = [] := by
  cases k with
  | zero => rfl
  | succ k => exact if_pos rfl

/-- **Lines that fit into the buffer are read one by one.** -/
theorem fgetsAll_lines {n k : ℕ} {lines : List (List UInt8)} {last : List UInt8}
    (h : ∀ line ∈ lines, IsLine line ∧ line.length ≤ n) (hlast : 10 ∉ last)
    (hfit : last.length ≤ n) (hk : lines.length < k) :
    fgetsAll n k (lines.flatten ++ last) = lines ++ if last = [] then [] else [last] := by
  induction lines generalizing k with
  | nil =>
      cases k with
      | zero => exact absurd hk (Nat.not_lt_zero _)
      | succ k =>
          rw [List.flatten_nil, List.nil_append, List.nil_append, fgetsAll,
            fgets_last hlast hfit, fgetsAll_nil]
  | cons line lines ih =>
      cases k with
      | zero => exact absurd hk (Nat.not_lt_zero _)
      | succ k =>
          obtain ⟨⟨body, rfl, hbody⟩, hlen⟩ := h line List.mem_cons_self
          rw [List.length_append, List.length_singleton] at hlen
          have ih := ih (fun l hl => h l (List.mem_cons_of_mem _ hl)) (Nat.lt_of_succ_lt_succ hk)
          have hne : body ++ [10] ++ (lines.flatten ++ last) ≠ [] := by simp
          rw [List.flatten_cons, List.append_assoc, fgetsAll, if_neg hne, List.append_assoc,
            List.singleton_append, fgets_line hbody (by omega), ih, List.cons_append]

/-! ### Finding a string -/

/-- `strstr()`: the rest of a string from the first place where `p` stands. -/
def strstr (p : List UInt8) : List UInt8 → Option (List UInt8)
  | [] => if p = [] then some [] else none
  | c :: s => if p.isPrefixOf (c :: s) then some (c :: s) else strstr p s

theorem strstr_some {p s t : List UInt8} (h : strstr p s = some t) :
    ∃ a b, s = a ++ (p ++ b) ∧ t = p ++ b := by
  induction s with
  | nil =>
      simp only [strstr, Option.ite_none_right_eq_some, Option.some.injEq] at h
      obtain ⟨rfl, rfl⟩ := h
      exact ⟨[], [], rfl, rfl⟩
  | cons c s ih =>
      rw [strstr] at h
      split_ifs at h with hp
      · obtain ⟨b, hb⟩ := List.isPrefixOf_iff_prefix.mp hp
        exact ⟨[], b, hb.symm, (Option.some.inj h).symm.trans hb.symm⟩
      · obtain ⟨a, b, rfl, rfl⟩ := ih h
        exact ⟨c :: a, b, rfl, rfl⟩

theorem strstr_isSome {p : List UInt8} (a b : List UInt8) :
    (strstr p (a ++ (p ++ b))).isSome = true := by
  induction a with
  | nil =>
      rw [List.nil_append]
      cases hs : p ++ b with
      | nil => rw [strstr, if_pos (List.append_eq_nil_iff.mp hs).1, Option.isSome_some]
      | cons c s =>
          rw [strstr, if_pos (List.isPrefixOf_iff_prefix.mpr ⟨b, hs⟩), Option.isSome_some]
  | cons c a ih =>
      rw [List.cons_append, strstr]
      split_ifs
      · rfl
      · exact ih

/-- A string that stands in one place only is found there. -/
theorem strstr_of_unique {p s a b : List UInt8} (h : s = a ++ (p ++ b))
    (hu : ∀ a' b', s = a' ++ (p ++ b') → a' = a) : strstr p s = some (p ++ b) := by
  obtain ⟨t, ht⟩ := Option.isSome_iff_exists.mp (strstr_isSome (p := p) a b)
  rw [← h] at ht
  obtain ⟨a', b', hs, rfl⟩ := strstr_some ht
  obtain rfl := hu a' b' hs
  rw [h] at hs
  rw [ht, List.append_cancel_left hs]

/-- Where the first character of `p` does not stand, neither does `p`. -/
theorem strstr_skip {c : UInt8} {a : List UInt8} (h : c ∉ a) (p s : List UInt8) :
    strstr (c :: p) (a ++ s) = strstr (c :: p) s := by
  induction a with
  | nil => rfl
  | cons d a ih =>
      obtain ⟨hcd, ha⟩ := not_or.mp (mt List.mem_cons.mpr h)
      have hno : ¬List.isPrefixOf (c :: p) (d :: (a ++ s)) = true := by
        rw [List.isPrefixOf_iff_prefix, List.cons_prefix_cons]
        exact fun hp => hcd hp.1
      rw [List.cons_append, strstr, if_neg hno, ih ha]

theorem strstr_here {p : List UInt8} {c : UInt8} {s : List UInt8} (h : p <+: c :: s) :
    strstr p (c :: s) = some (c :: s) :=
  if_pos (List.isPrefixOf_iff_prefix.mpr h)

theorem strstr_next {p : List UInt8} {c : UInt8} {s : List UInt8} (h : ¬p <+: c :: s) :
    strstr p (c :: s) = strstr p s :=
  if_neg fun hp => h (List.isPrefixOf_iff_prefix.mp hp)

theorem append_cons_prefix_iff {c : UInt8} {x u : List UInt8} (hx : c ∉ x) (hu : c ∉ u)
    (y v : List UInt8) : x ++ c :: y <+: u ++ c :: v ↔ u = x ∧ y <+: v := by
  induction x generalizing u with
  | nil =>
      cases u with
      | nil =>
          rw [List.nil_append, List.nil_append, List.cons_prefix_cons]
          exact ⟨fun hp => ⟨rfl, hp.2⟩, fun hp => ⟨rfl, hp.2⟩⟩
      | cons d u =>
          have hcd := (not_or.mp (mt List.mem_cons.mpr hu)).1
          rw [List.nil_append, List.cons_append, List.cons_prefix_cons]
          exact iff_of_false (fun hp => hcd hp.1) (fun hp => List.cons_ne_nil d u hp.1)
  | cons b x ih =>
      obtain ⟨hcb, hx⟩ := not_or.mp (mt List.mem_cons.mpr hx)
      cases u with
      | nil =>
          rw [List.nil_append, List.cons_append, List.cons_prefix_cons]
          exact iff_of_false (fun hp => hcb hp.1.symm) (fun hp => List.cons_ne_nil b x hp.1.symm)
      | cons d u =>
          have hu := (not_or.mp (mt List.mem_cons.mpr hu)).2
          rw [List.cons_append, List.cons_append, List.cons_prefix_cons, ih hx hu, List.cons.injEq,
            and_assoc, eq_comm]

theorem exists_eq_cstr_append (buf : List UInt8) : ∃ t, buf = cstr buf ++ t :=
  ⟨buf.dropWhile (· ≠ 0), (List.takeWhile_append_dropWhile).symm⟩

theorem cstr_append_of_mem {s : List UInt8} (h : 0 ∈ s) (t : List UInt8) :
    cstr (s ++ t) = cstr s := by
  obtain ⟨a, b, rfl, ha⟩ := List.eq_append_cons_of_mem h
  rw [List.append_assoc, List.cons_append, cstr_append_zero ha, cstr_append_zero ha]

end CString
