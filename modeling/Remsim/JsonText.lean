import Remsim.CString
import Remsim.Decimal

/-! # The text of a flat JSON object

Members with the white space around their tokens (`Item`), and the text they make (`objectText`).
Programs without a JSON parser look for `"name":` or `"name":"` in such a text.  `strstr_body` says
where a search that begins with a quoted word and a colon ends: at the member of that name, when
what follows the name there is as wanted, and nowhere else, since quotes stand only around names
and strings. -/

namespace JsonText

open CString Decimal

/-- A value without members of its own. -/
inductive Value where
  | int (negative : Bool) (n : ℕ)
  | str (s : List UInt8)
deriving DecidableEq, Repr

/-- A value as it is written. -/
def Value.text : Value → List UInt8
  | int negative n => (if negative then [45] else []) ++ numeral n
  | str s => 34 :: (s ++ [34])

def Value.isStr : Value → Bool
  | str _ => true
  | int _ _ => false

/-- The number, of a value that is one. -/
def Value.toInt : Value → ℤ
  | int negative n => if negative then -n else n
  | str _ => 0

/-- The characters, of a value that is a string. -/
def Value.chars : Value → List UInt8
  | int _ _ => []
  | str s => s

/-- A member, with the white space before its name, before and after the colon, and after its
value. -/
structure Item where
  name : List UInt8
  value : Value
  before : List UInt8
  afterName : List UInt8
  afterColon : List UInt8
  after : List UInt8
deriving DecidableEq, Repr

/-- Insignificant white space. -/
def isWs (c : UInt8) : Bool := c = 32 || c = 9 || c = 10 || c = 13

/-- A character of a string that is written as it is. -/
def isPlain (c : UInt8) : Bool := 32 ≤ c && c ≠ 34 && c ≠ 92

/-- The strings are without escapes. -/
def Value.Plain : Value → Prop
  | int _ _ => True
  | str s => ∀ c ∈ s, isPlain c = true

/-- A member that JSON allows. -/
structure Item.WellFormed (it : Item) : Prop where
  name : ∀ c ∈ it.name, isPlain c = true
  value : it.value.Plain
  before : ∀ c ∈ it.before, isWs c = true
  afterName : ∀ c ∈ it.afterName, isWs c = true
  afterColon : ∀ c ∈ it.afterColon, isWs c = true
  after : ∀ c ∈ it.after, isWs c = true

/-- What follows the name of a member. -/
def Item.rest (it : Item) : List UInt8 :=
  it.afterName ++ 58 :: (it.afterColon ++ (it.value.text ++ it.after))

def Item.text (it : Item) : List UInt8 := it.before ++ 34 :: (it.name ++ 34 :: it.rest)

/-- The member without white space. -/
def Item.compact (it : Item) : Item := ⟨it.name, it.value, [], [], [], []⟩

/-- What follows the opening brace. -/
def bodyText (items : List Item) (r : List UInt8) : List UInt8 :=
  List.intercalate [44] (items.map Item.text) ++ 125 :: r

/-- An object with white space around it. -/
def objectText (l r : List UInt8) (items : List Item) : List UInt8 :=
  l ++ 123 :: bodyText items r

example : objectText [] [] [⟨ascii "a", .int true 5, [], [], [32], []⟩, ⟨ascii "b", .str [], [], [],
    [], []⟩] = ascii "\x7b\"a\": -5,\"b\":\"\"\x7d" := by decide +kernel

/-! ### Characters outside of strings -/

/-- A character that can follow a quote outside of strings. -/
def isStop (c : UInt8) : Bool := isWs c || c = 58 || c = 44 || c = 125

/-- The text begins with such a character. -/
def Stops (s : List UInt8) : Prop := ∃ c t, s = c :: t ∧ isStop c = true

/-- What can follow a member: a comma, or the closing brace. -/
def EndsItem (tail : List UInt8) : Prop := ∃ c t, tail = c :: t ∧ (c = 44 ∨ c = 125)

/-- A word that is searched for. -/
structure IsWord (x : List UInt8) : Prop where
  quote : 34 ∉ x
  head : ∃ c t, x = c :: t ∧ isStop c = false

section characters

variable {s x : List UInt8}

theorem ne_quote_of_isWs {c : UInt8} (h : isWs c = true) : c ≠ 34 := by
  rintro rfl
  exact absurd h (by decide)

theorem Value.plain_iff (v : Value) : v.Plain ↔ ∀ c ∈ v.chars, isPlain c = true := by
  cases v with
  | int negative n => exact iff_of_true trivial (List.forall_mem_nil _)
  | str s => rfl

theorem quote_notMem_ws (h : ∀ c ∈ s, isWs c = true) : 34 ∉ s :=
  fun hmem => ne_quote_of_isWs (h 34 hmem) rfl

theorem quote_notMem_plain (h : ∀ c ∈ s, isPlain c = true) : 34 ∉ s :=
  fun hmem => absurd (h 34 hmem) (by decide)

theorem quote_notMem_chars {it : Item} (h : it.WellFormed) : 34 ∉ it.value.chars :=
  quote_notMem_plain ((Value.plain_iff it.value).mp h.value)

theorem quote_notMem_str {it : Item} (h : it.WellFormed) (hv : it.value = .str s) : 34 ∉ s := by
  have hchars := quote_notMem_chars h
  rw [hv] at hchars
  exact hchars

theorem stops_ws_append (h : ∀ c ∈ x, isWs c = true) (hs : Stops s) : Stops (x ++ s) := by
  cases x with
  | nil => exact hs
  | cons c x =>
      refine ⟨c, x ++ s, rfl, ?_⟩
      rw [isStop, h c List.mem_cons_self]
      rfl

theorem isWord_of_head? (hquote : 34 ∉ x) (hhead : (x.head?.any fun c => !isStop c) = true) :
    IsWord x := by
  refine ⟨hquote, ?_⟩
  cases x with
  | nil => cases hhead
  | cons c t => exact ⟨c, t, rfl, by simpa using hhead⟩

theorem IsWord.not_here (hx : IsWord x) (hs : Stops s) (y : List UInt8) :
    ¬34 :: (x ++ y) <+: 34 :: s := by
  obtain ⟨c, t, rfl, hc⟩ := hx.head
  obtain ⟨d, u, rfl, hd⟩ := hs
  rw [List.cons_prefix_cons, List.cons_append, List.cons_prefix_cons]
  rintro ⟨-, rfl, -⟩
  rw [hc] at hd
  cases hd

theorem quote_notMem_numeral (n : ℕ) : 34 ∉ numeral n :=
  fun hmem => absurd (isDigit_numeral n 34 hmem) (by decide)

theorem quote_notMem_int (negative : Bool) (n : ℕ) : 34 ∉ (Value.int negative n).text := by
  have hsign : (34 : UInt8) ∉ (if negative then [45] else []) := by
    cases negative <;> decide
  exact fun hmem => (List.mem_append.mp hmem).elim hsign (quote_notMem_numeral n)

end characters

/-! ### Searching -/

section search

variable {x y tail : List UInt8} {it : Item}

theorem Item.stops_rest (h : it.WellFormed) (tail : List UInt8) : Stops (it.rest ++ tail) := by
  rw [Item.rest, List.append_assoc, List.cons_append]
  exact stops_ws_append h.afterName ⟨58, _, rfl, rfl⟩

theorem Item.stops_after (h : it.WellFormed)
    (htail : EndsItem tail) : Stops (it.after ++ tail) := by
  refine stops_ws_append h.after ?_
  obtain ⟨c, t, rfl, rfl | rfl⟩ := htail
  · exact ⟨44, t, rfl, rfl⟩
  · exact ⟨125, t, rfl, rfl⟩

/-- A string that is the word is not followed by a colon. -/
theorem not_colon_of_after (h : it.WellFormed) (htail : EndsItem tail) {s : List UInt8}
    (hx : 34 ∉ x) (hs : 34 ∉ s) (z : List UInt8) :
    ¬34 :: (x ++ 34 :: 58 :: z) <+: 34 :: (s ++ 34 :: (it.after ++ tail)) := by
  rw [List.cons_prefix_cons, append_cons_prefix_iff hx hs]
  rintro ⟨-, -, hz⟩
  obtain ⟨c, t, rfl, hc⟩ := htail
  cases ha : it.after with
  | nil =>
      rw [ha, List.nil_append, List.cons_prefix_cons] at hz
      rcases hc with rfl | rfl
      · exact absurd hz.1 (by decide)
      · exact absurd hz.1 (by decide)
  | cons d a =>
      rw [ha, List.cons_append, List.cons_prefix_cons] at hz
      have hd := h.after d (ha ▸ List.mem_cons_self)
      rw [← hz.1] at hd
      exact absurd hd (by decide)

/-- The search goes on behind the name of a member. -/
theorem strstr_rest (h : it.WellFormed) (hx : IsWord x) (hy : ∃ z, y = 58 :: z)
    (htail : EndsItem tail) :
    strstr (34 :: (x ++ 34 :: y)) (it.rest ++ tail) = strstr (34 :: (x ++ 34 :: y)) tail := by
  obtain ⟨z, rfl⟩ := hy
  have hafter : Stops (it.after ++ tail) := Item.stops_after h htail
  have hcolon : 34 ∉ it.afterName ++ 58 :: it.afterColon := by
    rw [List.mem_append, List.mem_cons]
    rintro (hmem | heq | hmem)
    · exact quote_notMem_ws h.afterName hmem
    · exact absurd heq (by decide)
    · exact quote_notMem_ws h.afterColon hmem
  have hsplit : it.rest ++ tail =
      (it.afterName ++ 58 :: it.afterColon) ++ (it.value.text ++ (it.after ++ tail)) := by
    simp only [Item.rest, List.append_assoc, List.cons_append]
  rw [hsplit, strstr_skip hcolon]
  have hskip := strstr_skip (quote_notMem_ws h.after) (x ++ 34 :: 58 :: z) tail
  cases hv : it.value with
  | int negative n => rw [strstr_skip (quote_notMem_int negative n), hskip]
  | str s =>
      have hs := quote_notMem_str h hv
      have hopen := not_colon_of_after h htail hx.quote hs z
      have htext : (Value.str s).text ++ (it.after ++ tail) =
          34 :: (s ++ 34 :: (it.after ++ tail)) := by
        simp only [Value.text, List.append_assoc, List.cons_append, List.nil_append]
      rw [htext, strstr_next hopen, strstr_skip hs,
        strstr_next (hx.not_here hafter _), hskip]

theorem strstr_item (h : it.WellFormed) (hx : IsWord x) (hy : ∃ z, y = 58 :: z)
    (htail : EndsItem tail) :
    (it.name = x ∧ y <+: it.rest ++ tail → strstr (34 :: (x ++ 34 :: y)) (it.text ++ tail) =
        some (34 :: (x ++ 34 :: (it.rest ++ tail)))) ∧
    (¬(it.name = x ∧ y <+: it.rest ++ tail) → strstr (34 :: (x ++ 34 :: y)) (it.text ++ tail) =
        strstr (34 :: (x ++ 34 :: y)) tail) := by
  have hname := quote_notMem_plain h.name
  have hsplit : it.text ++ tail = it.before ++ 34 :: (it.name ++ 34 :: (it.rest ++ tail)) := by
    simp only [Item.text, List.append_assoc, List.cons_append]
  rw [hsplit, strstr_skip (quote_notMem_ws h.before)]
  have hiff : 34 :: (x ++ 34 :: y) <+: 34 :: (it.name ++ 34 :: (it.rest ++ tail)) ↔
      it.name = x ∧ y <+: it.rest ++ tail := by
    rw [List.cons_prefix_cons, append_cons_prefix_iff hx.quote hname, eq_self_iff_true, true_and]
  constructor
  · intro hfound
    rw [strstr_here (hiff.mpr hfound), hfound.1]
  · intro hmissed
    rw [strstr_next (mt hiff.mp hmissed), strstr_skip hname,
      strstr_next (hx.not_here (Item.stops_rest h tail) _), strstr_rest h hx hy htail]

theorem bodyText_cons (it : Item) (items : List Item) (r p : List UInt8) :
    ∃ tail, EndsItem tail ∧
      bodyText (it :: items) r = it.text ++ tail ∧
      strstr (34 :: p) tail = strstr (34 :: p) (bodyText items r) := by
  cases items with
  | nil =>
      refine ⟨125 :: r, ⟨125, r, rfl, .inr rfl⟩, ?_, rfl⟩
      rw [bodyText, List.map_singleton, List.intercalate_singleton]
  | cons it' items =>
      refine ⟨44 :: bodyText (it' :: items) r, ⟨44, _, rfl, .inl rfl⟩, ?_, ?_⟩
      · rw [bodyText, bodyText, List.map_cons, List.map_cons, List.intercalate_cons_cons,
          List.append_assoc, List.append_assoc, List.singleton_append]
      · exact strstr_skip (a := [44]) (by decide) p _

/-- A member of a name for which `q` holds. -/
def named (x : List UInt8) (q : Item → Bool) (it : Item) : Bool := it.name = x && q it

theorem named_iff (x : List UInt8) (q : Item → Bool) (it : Item) :
    named x q it = true ↔ it.name = x ∧ q it = true := by
  rw [named, Bool.and_eq_true, decide_eq_true_eq]

variable {q : Item → Bool}

/-- **A word in quotes that a colon follows is found at the member of that name.**  What else is
wanted of the member is `q`. -/
theorem strstr_body (hx : IsWord x) (hy : ∃ z, y = 58 :: z)
    (hq : ∀ it : Item, it.WellFormed → ∀ tail, y <+: it.rest ++ tail ↔ q it = true)
    {items : List Item} (h : ∀ it ∈ items, it.WellFormed) {r : List UInt8} (hr : 34 ∉ r) :
    (items.find? (named x q) = none →
      strstr (34 :: (x ++ 34 :: y)) (bodyText items r) = none) ∧
    ∀ it, items.find? (named x q) = some it →
      ∃ tail, EndsItem tail ∧
        strstr (34 :: (x ++ 34 :: y)) (bodyText items r) =
          some (34 :: (x ++ 34 :: (it.rest ++ tail))) := by
  induction items with
  | nil =>
      have hnone : strstr (34 :: (x ++ 34 :: y)) (125 :: r ++ []) =
          strstr (34 :: (x ++ 34 :: y)) [] := by
        apply strstr_skip
        rw [List.mem_cons]
        rintro (heq | hmem)
        · exact absurd heq (by decide)
        · exact hr hmem
      rw [List.append_nil] at hnone
      exact ⟨fun _ => hnone, fun it hit => by cases hit⟩
  | cons it items ih =>
      have hit := h it List.mem_cons_self
      obtain ⟨tail, htail, htext, hrest⟩ := bodyText_cons it items r (x ++ 34 :: y)
      obtain ⟨hfound, hmissed⟩ := strstr_item hit hx hy htail
      rw [hq it hit tail] at hfound hmissed
      rw [htext]
      by_cases hmatch : it.name = x ∧ q it = true
      · rw [List.find?_cons_of_pos ((named_iff x q it).mpr hmatch)]
        refine ⟨fun hnone => ?_, fun it' hit' => ⟨tail, htail, ?_⟩⟩
        · cases hnone
        · rw [← Option.some.inj hit']
          exact hfound hmatch
      · rw [List.find?_cons_of_neg (mt (named_iff x q it).mp hmatch), hmissed hmatch, hrest]
        exact ih fun it' hit' => h it' (List.mem_cons_of_mem it hit')

theorem strstr_object {l : List UInt8} (hl : 34 ∉ l) (items : List Item) (r p : List UInt8) :
    strstr (34 :: p) (objectText l r items) = strstr (34 :: p) (bodyText items r) := by
  have hskip : 34 ∉ l ++ [123] := by
    rw [List.mem_append, List.mem_singleton]
    rintro (hmem | heq)
    · exact hl hmem
    · exact absurd heq (by decide)
  have hsplit : objectText l r items = (l ++ [123]) ++ bodyText items r := by
    rw [objectText, List.append_assoc, List.singleton_append]
  rw [hsplit, strstr_skip hskip]

end search

/-! ### What follows a name -/

section follow

variable {it : Item} {w tail : List UInt8}

/-- The colon follows at once. -/
def Item.atName (it : Item) : Bool := it.afterName = []

/-- A string follows at once behind the colon. -/
def Item.atString (it : Item) : Bool := it.atName && it.afterColon = [] && it.value.isStr

/-- This string follows at once. -/
def Item.isString (w : List UInt8) (it : Item) : Bool := it.atString && it.value = .str w

theorem colon_follows (h : it.WellFormed) (z tail : List UInt8) :
    58 :: z <+: it.rest ++ tail ↔ it.afterName = [] ∧
      z <+: it.afterColon ++ (it.value.text ++ (it.after ++ tail)) := by
  have hsplit : it.rest ++ tail =
      it.afterName ++ 58 :: (it.afterColon ++ (it.value.text ++ (it.after ++ tail))) := by
    simp only [Item.rest, List.append_assoc, List.cons_append]
  rw [hsplit]
  cases hname : it.afterName with
  | nil => rw [List.nil_append, List.cons_prefix_cons, eq_self_iff_true, eq_self_iff_true]
  | cons c n =>
      refine iff_of_false (fun hp => ?_) (fun hp => List.cons_ne_nil c n hp.1)
      rw [List.cons_append, List.cons_prefix_cons] at hp
      have hc := h.afterName c (hname ▸ List.mem_cons_self)
      rw [← hp.1] at hc
      exact absurd hc (by decide)

theorem quote_follows (h : it.WellFormed) (w t : List UInt8) :
    34 :: w <+: it.afterColon ++ (it.value.text ++ t) ↔
      it.afterColon = [] ∧ ∃ s, it.value = .str s ∧ w <+: s ++ 34 :: t := by
  cases hcolon : it.afterColon with
  | cons c n =>
      refine iff_of_false (fun hp => ?_) (fun hp => List.cons_ne_nil c n hp.1)
      rw [List.cons_append, List.cons_prefix_cons] at hp
      exact ne_quote_of_isWs (h.afterColon c (hcolon ▸ List.mem_cons_self)) hp.1.symm
  | nil =>
      rw [List.nil_append, eq_self_iff_true, true_and]
      cases it.value with
      | str s =>
          have htext : (Value.str s).text ++ t = 34 :: (s ++ 34 :: t) := by
            simp only [Value.text, List.append_assoc, List.cons_append, List.nil_append]
          rw [htext, List.cons_prefix_cons]
          constructor
          · exact fun hp => ⟨s, rfl, hp.2⟩
          · rintro ⟨_, ⟨⟩, hp⟩
            exact ⟨rfl, hp⟩
      | int negative n =>
          refine iff_of_false (fun hp => ?_) (fun ⟨s, hs, _⟩ => by cases hs)
          have hmem : 34 ∈ (Value.int negative n).text := by
            have hne : (Value.int negative n).text ≠ [] := by
              rw [Value.text]
              exact List.append_ne_nil_of_right_ne_nil _ (numeral_ne_nil n)
            obtain ⟨c, u, hcu⟩ := List.exists_cons_of_ne_nil hne
            rw [hcu, List.cons_append, List.cons_prefix_cons] at hp
            rw [hcu, hp.1]
            exact List.mem_cons_self
          exact quote_notMem_int negative n hmem

theorem atName_follows (h : it.WellFormed) (tail : List UInt8) :
    [58] <+: it.rest ++ tail ↔ it.atName = true := by
  rw [colon_follows h, Item.atName, decide_eq_true_eq]
  exact and_iff_left (List.nil_prefix)

theorem atString_follows (h : it.WellFormed) (tail : List UInt8) :
    [58, 34] <+: it.rest ++ tail ↔ it.atString = true := by
  rw [colon_follows h, quote_follows h, Item.atString, Item.atName, Bool.and_eq_true,
    Bool.and_eq_true, decide_eq_true_eq, decide_eq_true_eq, and_assoc]
  refine and_congr_right fun _ => and_congr_right fun _ => ?_
  cases it.value with
  | str s => exact iff_of_true ⟨s, rfl, List.nil_prefix⟩ rfl
  | int negative n => exact iff_of_false (fun ⟨s, hs, _⟩ => by cases hs) Bool.false_ne_true

theorem rest_of_atString (h : it.atString = true) :
    it.rest = [58, 34] ++ (it.value.chars ++ 34 :: it.after) := by
  rw [Item.atString, Item.atName, Bool.and_eq_true, Bool.and_eq_true, decide_eq_true_eq,
    decide_eq_true_eq] at h
  obtain ⟨⟨hname, hcolon⟩, hstr⟩ := h
  cases hv : it.value with
  | int negative n =>
      rw [hv] at hstr
      cases hstr
  | str s =>
      simp only [Item.rest, hname, hcolon, hv, Value.text, Value.chars, List.nil_append,
        List.cons_append, List.append_assoc]

theorem isString_follows (h : it.WellFormed) (hw : 34 ∉ w) (tail : List UInt8) :
    58 :: 34 :: (w ++ [34]) <+: it.rest ++ tail ↔ it.isString w = true := by
  rw [colon_follows h, quote_follows h, Item.isString, Item.atString, Item.atName,
    Bool.and_eq_true, Bool.and_eq_true, Bool.and_eq_true, decide_eq_true_eq, decide_eq_true_eq,
    decide_eq_true_eq, and_assoc, and_assoc]
  refine and_congr_right fun _ => and_congr_right fun _ => ?_
  cases hv : it.value with
  | str s =>
      have hs := quote_notMem_str h hv
      constructor
      · rintro ⟨_, ⟨⟩, hp⟩
        rw [append_cons_prefix_iff hw hs] at hp
        exact ⟨rfl, by rw [hp.1]⟩
      · rintro ⟨-, ⟨⟩⟩
        exact ⟨w, rfl, (append_cons_prefix_iff hw hw _ _).mpr ⟨rfl, List.nil_prefix⟩⟩
  | int negative n =>
      refine iff_of_false (fun ⟨s, hs, _⟩ => by cases hs) fun hc => ?_
      exact Bool.false_ne_true hc.1

end follow

/-! ### Members -/

/-- The member of a name. -/
def member (items : List Item) (x : List UInt8) : Option Item := items.find? (·.name = x)

theorem member_cons_of_eq {it : Item} {x : List UInt8} (h : it.name = x) (items : List Item) :
    member (it :: items) x = some it :=
  List.find?_cons_of_pos (p := fun it : Item => decide (it.name = x)) (decide_eq_true h)

theorem member_cons_of_ne {it : Item} {x : List UInt8} (h : it.name ≠ x) (items : List Item) :
    member (it :: items) x = member items x :=
  List.find?_cons_of_neg (p := fun it : Item => decide (it.name = x))
    fun hn => h (of_decide_eq_true hn)

/-- Among members of different names only one can be meant. -/
theorem find?_member {items : List Item} (h : (items.map Item.name).Nodup) (x : List UInt8)
    (q : Item → Bool) :
    items.find? (named x q) = (member items x).filter q := by
  induction items with
  | nil => rfl
  | cons it items ih =>
      rw [List.map_cons, List.nodup_cons] at h
      by_cases hname : it.name = x
      · have hnone : items.find? (named x q) = none := by
          rw [List.find?_eq_none]
          intro it' hit' hmatch
          have heq := ((named_iff x q it').mp hmatch).1.trans hname.symm
          exact h.1 (List.mem_map.mpr ⟨it', hit', heq⟩)
        rw [member_cons_of_eq hname]
        by_cases hq : q it = true
        · rw [List.find?_cons_of_pos ((named_iff x q it).mpr ⟨hname, hq⟩), Option.filter_some,
            if_pos hq]
        · rw [List.find?_cons_of_neg fun hn => hq ((named_iff x q it).mp hn).2, hnone,
            Option.filter_some, if_neg hq]
      · rw [member_cons_of_ne hname,
          List.find?_cons_of_neg fun hn => hname ((named_iff x q it).mp hn).1]
        exact ih h.2

/-- **A quoted word with a colon is found at the member of that name**, among members of different
names. -/
theorem strstr_member {x y : List UInt8} {q : Item → Bool} {items : List Item} {l r : List UInt8}
    (hx : IsWord x) (hy : ∃ z, y = 58 :: z)
    (hq : ∀ it : Item, it.WellFormed → ∀ tail, y <+: it.rest ++ tail ↔ q it = true)
    (h : ∀ it ∈ items, it.WellFormed) (hn : (items.map Item.name).Nodup)
    (hl : ∀ c ∈ l, isWs c = true) (hr : ∀ c ∈ r, isWs c = true) :
    ((member items x).filter q = none →
      strstr (34 :: (x ++ 34 :: y)) (objectText l r items) = none) ∧
    ∀ it, (member items x).filter q = some it →
      ∃ tail, EndsItem tail ∧
        strstr (34 :: (x ++ 34 :: y)) (objectText l r items) =
          some (34 :: (x ++ 34 :: (it.rest ++ tail))) := by
  rw [← find?_member hn, strstr_object (quote_notMem_ws hl)]
  exact strstr_body hx hy hq h (quote_notMem_ws hr)

theorem member_compact (items : List Item) (x : List UInt8) :
    member (items.map Item.compact) x = (member items x).map Item.compact := by
  rw [member, List.find?_map]
  rfl

theorem Item.WellFormed.compact {it : Item} (h : it.WellFormed) : it.compact.WellFormed :=
  ⟨h.name, h.value, List.forall_mem_nil _, List.forall_mem_nil _, List.forall_mem_nil _,
    List.forall_mem_nil _⟩

theorem name_of_member {items : List Item} {x : List UInt8} {it : Item}
    (h : member items x = some it) : it ∈ items ∧ it.name = x := by
  have hname := List.find?_some (p := fun it : Item => decide (it.name = x)) h
  exact ⟨List.mem_of_find?_eq_some h, of_decide_eq_true hname⟩

end JsonText
