import Remsim.Lists
import Remsim.Scanf

/-! # The configuration of the OpenWRT client (`/etc/config/remsim`)

`parse_openwrt_config()` reads a file line by line.  A line beginning with `config ` opens a
section, and the loop remembers its name when the line has the form `config <type> '<name>'`; a
line beginning with `option ` is read with two patterns of `sscanf()` in turn, and sets a field of
the configuration that belongs to the section remembered.

`attributed_iff` says for which files each option counts in the section that its nearest config
line opens, and numbers are decimal numbers in range. -/

namespace Remsim.OpenWrt

open CString Decimal ListLib Scanf

/-! ### The program -/

/-- `struct client_config`: the fields that the parser names, and the others as one value. -/
@[ext]
structure ClientConfig (ρ : Type) where
  serverHost : List UInt8
  serverPort : ℤ
  clientId : ℤ
  clientSlot : ℤ
  rest : ρ
deriving DecidableEq, Repr

variable {ρ : Type}

/-- A blank or a tab. -/
def isBlank (c : UInt8) : Bool := c = 32 || c = 9

/-- The host without the blanks around it; the loop from the end stops at the first character. -/
def trimHost (value : List UInt8) : List UInt8 :=
  let start := value.dropWhile isBlank
  start.take 1 ++ (start.drop 1).rdropWhile fun c => isBlank c || c = 10

/-- The number that a value stands for, if `strtol()` takes all of it and it is in range. -/
def numberIn (lo hi : ℤ) (value : List UInt8) : Option ℤ :=
  let r := strtol value
  if r.2 = [] ∧ lo ≤ r.1 ∧ r.1 ≤ hi then some r.1 else none

/-- An option of a section. -/
def applyOption (cfg : ClientConfig ρ) (section_ key value : List UInt8) : ClientConfig ρ :=
  if section_ = ascii "server" then
    if key = ascii "host" then { cfg with serverHost := trimHost value }
    else if key = ascii "port" then
      { cfg with serverPort := (numberIn 1 65535 value).getD cfg.serverPort }
    else cfg
  else if section_ = ascii "client" then
    if key = ascii "client_id" then
      { cfg with clientId := (numberIn 0 1023 value).getD cfg.clientId }
    else if key = ascii "client_slot" then
      { cfg with clientSlot := (numberIn 0 1023 value).getD cfg.clientSlot }
    else cfg
  else cfg

/-- `config %63s '%63[^']'`. -/
def configFormat : List Directive :=
  lits (ascii "config") ++ [.space, .word 63, .space, .lit 39, .span 63 39, .lit 39]

/-- `option %63s '%511[^']'`. -/
def quotedFormat : List Directive :=
  lits (ascii "option") ++ [.space, .word 63, .space, .lit 39, .span 511 39, .lit 39]

/-- `option %63s %511s`. -/
def bareFormat : List Directive :=
  lits (ascii "option") ++ [.space, .word 63, .space, .word 511]

/-- The two texts of a format, if both are assigned. -/
def scanPair (format : List Directive) (p : List UInt8) : Option (List UInt8 × List UInt8) :=
  match sscanf format p with
  | [.text a, .text b] => some (a, b)
  | _ => none

/-- The key and the value of an option, without the newline at the end. -/
def scanOption (p : List UInt8) : Option (List UInt8 × List UInt8) :=
  ((scanPair quotedFormat p).or (scanPair bareFormat p)).map fun x =>
    (x.1, ((strchr 10 x.2).map Prod.fst).getD x.2)

/-- What the loop keeps: the name of the section, and the configuration. -/
structure UciState (ρ : Type) where
  section_ : Option (List UInt8)
  cfg : ClientConfig ρ
deriving DecidableEq, Repr

/-- The line without what it begins with. -/
def lineStart (line : List UInt8) : List UInt8 := (cstr line).dropWhile isBlank

/-- One pass of the loop. -/
def parseLine (st : UciState ρ) (line : List UInt8) : UciState ρ :=
  let p := lineStart line
  if p = [] ∨ p.head? = some 10 ∨ p.head? = some 35 then st
  else if (ascii "config ").isPrefixOf p then
    match scanPair configFormat p with
    | some (_, name) => { st with section_ := some name }
    | none => st
  else if (ascii "option ").isPrefixOf p then
    match scanOption p, st.section_ with
    | some (key, value), some section_ => { st with cfg := applyOption st.cfg section_ key value }
    | _, _ => st
  else st

/-- The loop over the lines. -/
def parseLines (cfg : ClientConfig ρ) (lines : List (List UInt8)) : UciState ρ :=
  lines.foldl parseLine ⟨none, cfg⟩

/-- `parse_openwrt_config()` with the contents of the file, if there is one. -/
def parseOpenwrtConfig (cfg : ClientConfig ρ) : Option (List UInt8) → ClientConfig ρ
  | none => cfg
  | some file => (parseLines cfg (fgetsAll 1023 (file.length + 1) file)).cfg

example : parseOpenwrtConfig ⟨[], 9998, -1, -1, ()⟩
    (some (ascii "config client 'client'\n\toption client_id '7'\n\toption client_slot 3\n")) =
      ⟨[], 9998, 7, 3, ()⟩ := by decide +kernel

/-! ### The file -/

/-- What follows a keyword and a blank or a tab in a line. -/
def afterKeyword (w line : List UInt8) : Option (List UInt8) :=
  if w.isPrefixOf (lineStart line) then
    match (lineStart line).drop w.length with
    | c :: r => if isBlank c then some r else none
    | [] => none
  else none

/-- A value: what stands between quotes, or a word. -/
def valueText : List UInt8 → List UInt8
  | 39 :: t => t.takeWhile fun c => c ≠ 10 ∧ c ≠ 39
  | u => (wordOf u).1

/-- An option: its key, and what follows the key. -/
def optionLine (line : List UInt8) : Option (List UInt8 × List UInt8) :=
  (afterKeyword (ascii "option") line).bind fun r =>
    if (wordOf r).2.dropWhile isSpace = [] then none
    else some ((wordOf r).1, (wordOf r).2.dropWhile isSpace)

/-- A config line, quoted, unquoted or anonymous: the name of the section, which is empty for an
anonymous one. -/
def configLine (line : List UInt8) : Option (List UInt8) :=
  (afterKeyword (ascii "config") line).bind fun r =>
    if (wordOf r).1 = [] then none else some (valueText ((wordOf r).2.dropWhile isSpace))

/-- The name of the section after some lines. -/
def currentSection (lines : List (List UInt8)) : List UInt8 :=
  ((lines.filterMap configLine).getLast?).getD []

/-- A value between quotes that is empty. -/
def EmptyQuoted (u : List UInt8) : Prop := u.head? = some 39 ∧ valueText u = []

/-- The options that are numbers. -/
inductive Number
  | port
  | clientId
  | clientSlot
deriving DecidableEq, Repr

namespace Number

/-- The section that the option belongs to. -/
def sectionName : Number → List UInt8
  | port => ascii "server"
  | clientId => ascii "client"
  | clientSlot => ascii "client"

def key : Number → List UInt8
  | port => ascii "port"
  | clientId => ascii "client_id"
  | clientSlot => ascii "client_slot"

def lo : Number → ℤ
  | port => 1
  | clientId => 0
  | clientSlot => 0

def hi : Number → ℤ
  | port => 65535
  | clientId => 1023
  | clientSlot => 1023

end Number

/-- The field of an option. -/
def ClientConfig.number (cfg : ClientConfig ρ) : Number → ℤ
  | .port => cfg.serverPort
  | .clientId => cfg.clientId
  | .clientSlot => cfg.clientSlot

/-- A decimal number in the range of the option. -/
def Number.decimal (f : Number) (v : List UInt8) : Option ℤ :=
  if IsNumber v ∧ f.lo ≤ value v ∧ value v ≤ f.hi then some (value v) else none

/-- The number that a line of a section is to set an option to: the whole value is a decimal
number in range. -/
def dueNumber (f : Number) (current line : List UInt8) : Option ℤ :=
  (optionLine line).bind fun x =>
    if current = f.sectionName ∧ x.1 = f.key then f.decimal (valueText x.2) else none

/-- What a line may change in its section, and what it has to. -/
structure LineFollows (current line : List UInt8) (c c' : ClientConfig ρ) : Prop where
  server : c'.serverHost ≠ c.serverHost ∨ c'.serverPort ≠ c.serverPort → current = ascii "server"
  client : c'.clientId ≠ c.clientId ∨ c'.clientSlot ≠ c.clientSlot → current = ascii "client"
  number : ∀ f, c'.number f = (dueNumber f current line).getD (c.number f)
  empty : ∀ key u, optionLine line = some (key, u) → EmptyQuoted u → c' = c
  rest : c'.rest = c.rest

/-- The numbers that lines are to set an option to, after some lines before them. -/
def effective (f : Number) (pre : List (List UInt8)) : List (List UInt8) → List ℤ
  | [] => []
  | line :: lines =>
      (dueNumber f (currentSection pre) line).toList ++ effective f (pre ++ [line]) lines

/-- Every line counts in the section that it stands in, and of the numbers for an option the last
one wins. -/
structure Attributed (cfg : ClientConfig ρ) (lines : List (List UInt8)) : Prop where
  line : ∀ pre line post, lines = pre ++ line :: post → LineFollows (currentSection pre) line
    (parseLines cfg pre).cfg (parseLines cfg (pre ++ [line])).cfg
  last : ∀ f, (parseLines cfg lines).cfg.number f =
    ((effective f [] lines).getLast?).getD (cfg.number f)

/-! ### What the program reads in a line -/

/-- The quotes are empty, or there is nothing after the first one. -/
def EmptyQuotes (u : List UInt8) : Prop :=
  u.head? = some 39 ∧ (u.tail = [] ∨ u.tail.head? = some 39)

instance (u : List UInt8) : Decidable (EmptyQuotes u) := inferInstanceAs (Decidable (_ ∧ _))

/-- The value as it arrives in the buffer: empty quotes are taken for a word. -/
def shown (u : List UInt8) : List UInt8 :=
  if EmptyQuotes u then (wordOf u).1.take 511 else (valueText u).take 511

variable {kw r : List UInt8}

theorem sscanf_keyword (ds : List Directive) :
    sscanf (lits kw ++ .space :: ds) (kw ++ 32 :: r) = sscanf ds (r.dropWhile isSpace) := by
  rw [sscanf_lits, sscanf_space, List.dropWhile_cons_of_pos (by decide)]

theorem sscanf_first {ds : List Directive} {v : Val} {vs : List Val}
    (h : sscanf (lits kw ++ .space :: .word 63 :: ds) (kw ++ 32 :: r) = v :: vs) :
    (wordOf r).1 ≠ [] ∧ v = .text ((wordOf r).1.take 63) := by
  rw [sscanf_keyword] at h
  by_cases hw : (wordOf r).1.take 63 = []
  · rw [sscanf_word_nil (by rw [wordOf_dropWhile]; exact hw)] at h
    exact absurd h (List.cons_ne_nil _ _).symm
  · rw [sscanf_word (by rw [wordOf_dropWhile]; exact hw), wordOf_dropWhile] at h
    refine ⟨fun hnil => hw (by rw [hnil, List.take_nil]), (List.cons.inj h).1.symm⟩

theorem sscanf_fits {ds : List Directive} (hne : (wordOf r).1 ≠ [])
    (hlen : (wordOf r).1.length ≤ 63) :
    sscanf (lits kw ++ .space :: .word 63 :: .space :: ds) (kw ++ 32 :: r) =
      .text (wordOf r).1 :: sscanf ds ((wordOf r).2.dropWhile isSpace) := by
  have htake : (wordOf r).1.take 63 = (wordOf r).1 := List.take_of_length_le hlen
  rw [sscanf_keyword, sscanf_word (by rw [wordOf_dropWhile, htake]; exact hne), wordOf_dropWhile,
    htake, List.dropWhile_idempotent, drop_wordOf, sscanf_space]

theorem scanPair_eq_some {format : List Directive} {p a b : List UInt8} :
    scanPair format p = some (a, b) ↔ sscanf format p = [.text a, .text b] := by
  unfold scanPair
  split
  · next heq =>
      rw [heq]
      simp
  · next hne => exact iff_of_false (by simp) fun h => hne a b h

theorem scanPair_key {ds : List Directive} {a b : List UInt8}
    (h : scanPair (lits kw ++ .space :: .word 63 :: ds) (kw ++ 32 :: r) = some (a, b)) :
    (wordOf r).1 ≠ [] ∧ a = (wordOf r).1.take 63 := by
  obtain ⟨hne, ha⟩ := sscanf_first (scanPair_eq_some.mp h)
  exact ⟨hne, Val.text.inj ha⟩

theorem scanPair_quoted (n : ℕ) (kw : List UInt8) (hne : (wordOf r).1 ≠ [])
    (hlen : (wordOf r).1.length ≤ 63) {u : List UInt8} (hu : (wordOf r).2.dropWhile isSpace = u) :
    scanPair (lits kw ++ [.space, .word 63, .space, .lit 39, .span n 39, .lit 39])
        (kw ++ 32 :: r) =
      if u.head? = some 39 ∧ spanned n 39 u.tail ≠ [] then
        some ((wordOf r).1, spanned n 39 u.tail) else none := by
  unfold scanPair
  rw [sscanf_fits hne hlen, hu]
  by_cases hq : u.head? = some 39
  · obtain ⟨t, rfl⟩ := List.head?_eq_some_iff.mp hq
    rw [sscanf_lit, List.tail_cons]
    by_cases hs : spanned n 39 t = []
    · rw [sscanf_span_nil hs, if_neg fun h => h.2 hs]
    · rw [sscanf_span hs, if_pos ⟨hq, hs⟩]
      have hend : ∀ s, sscanf [.lit 39] s = [] := by
        intro s
        by_cases hc : s.head? = some 39
        · obtain ⟨s, rfl⟩ := List.head?_eq_some_iff.mp hc
          rw [sscanf_lit, sscanf]
        · exact sscanf_lit_of_ne hc []
      rw [hend]
  · rw [sscanf_lit_of_ne hq, if_neg fun h => hq h.1]

theorem scanPair_bare (kw : List UInt8) (hne : (wordOf r).1 ≠ [])
    (hlen : (wordOf r).1.length ≤ 63) {u : List UInt8} (hu : (wordOf r).2.dropWhile isSpace = u) :
    scanPair (lits kw ++ [.space, .word 63, .space, .word 511]) (kw ++ 32 :: r) =
      if u = [] then none else some ((wordOf r).1, (wordOf u).1.take 511) := by
  unfold scanPair
  rw [sscanf_fits hne hlen, hu]
  have hword : (wordOf u).1.take 511 = [] ↔ u = [] := by
    rw [List.take_eq_nil_iff, or_iff_right (by decide), wordOf_eq_nil_iff, ← hu,
      List.dropWhile_idempotent]
  by_cases hu' : u = []
  · rw [sscanf_word_nil (hword.mpr hu'), if_pos hu']
  · rw [sscanf_word (mt hword.mp hu'), if_neg hu', sscanf]

/-- Between quotes the value that arrives is the one in the file, up to what the buffer holds. -/
theorem cut_spanned (t : List UInt8) :
    (spanned 511 39 t).takeWhile (· ≠ 10) = (valueText (39 :: t)).take 511 := by
  rw [spanned, takeWhile_take, List.takeWhile_takeWhile]
  simp [valueText]

theorem cut_word (s : List UInt8) (k : ℕ) :
    ((wordOf s).1.take k).takeWhile (· ≠ 10) = (wordOf s).1.take k := by
  rw [List.takeWhile_eq_self_iff]
  intro c hc
  have hsp := List.mem_takeWhile_imp (List.mem_of_mem_take hc)
  rw [decide_eq_true_eq]
  rintro rfl
  exact absurd hsp (by decide)

theorem emptyQuotes_iff (u : List UInt8) :
    EmptyQuotes u ↔ u.head? = some 39 ∧ spanned 511 39 u.tail = [] := by
  refine and_congr_right fun _ => ?_
  cases u.tail with
  | nil => simp [spanned]
  | cons c t => by_cases hc : c = 39 <;> simp [spanned, hc]

theorem valueText_of_head_ne {u : List UInt8} (h : u.head? ≠ some 39) :
    valueText u = (wordOf u).1 := by
  unfold valueText
  split
  · exact absurd rfl h
  · rfl

/-- **The key and the value that are read in an option.** -/
theorem scanOption_fits (hne : (wordOf r).1 ≠ []) (hlen : (wordOf r).1.length ≤ 63)
    {u : List UInt8} (hu : (wordOf r).2.dropWhile isSpace = u) :
    scanOption (ascii "option" ++ 32 :: r) =
      if u = [] then none else some ((wordOf r).1, shown u) := by
  unfold scanOption
  have hquoted := scanPair_quoted 511 (ascii "option") hne hlen hu
  have hbare := scanPair_bare (ascii "option") hne hlen hu
  rw [quotedFormat, bareFormat, hquoted, hbare]
  by_cases hq : u.head? = some 39 ∧ spanned 511 39 u.tail ≠ []
  · obtain ⟨t, rfl⟩ := List.head?_eq_some_iff.mp hq.1
    have hne' : ¬EmptyQuotes (39 :: t) := fun h => hq.2 ((emptyQuotes_iff _).mp h).2
    rw [if_pos hq, if_neg (List.cons_ne_nil _ _), Option.some_or, Option.map_some, strchr_getD,
      List.tail_cons, cut_spanned, shown, if_neg hne']
    rfl
  · rw [if_neg hq, Option.none_or]
    by_cases hnil : u = []
    · rw [if_pos hnil, if_pos hnil, Option.map_none]
    · rw [if_neg hnil, if_neg hnil, Option.map_some, strchr_getD, cut_word, shown]
      split_ifs with he
      · rfl
      · have hhead : u.head? ≠ some 39 := fun h =>
          hq ⟨h, fun hs => he ((emptyQuotes_iff u).mpr ⟨h, hs⟩)⟩
        rw [valueText_of_head_ne hhead]

theorem scanOption_key {key v : List UInt8}
    (h : scanOption (ascii "option" ++ 32 :: r) = some (key, v)) :
    (wordOf r).1 ≠ [] ∧ key = (wordOf r).1.take 63 := by
  obtain ⟨⟨a, b⟩, hab, heq⟩ := Option.map_eq_some_iff.mp h
  obtain ⟨rfl, -⟩ := Prod.mk.inj heq
  rcases Option.or_eq_some_iff.mp hab with hq | ⟨-, hb⟩
  · exact scanPair_key hq
  · exact scanPair_key hb

/-! ### One line -/

/-- The key and the value that the loop reads in a line. -/
def readOption (line : List UInt8) : Option (List UInt8 × List UInt8) :=
  if (ascii "option ").isPrefixOf (lineStart line) then scanOption (lineStart line) else none

/-- The name that the loop remembers from a config line. -/
def quotedName (line : List UInt8) : Option (List UInt8) :=
  if (ascii "config ").isPrefixOf (lineStart line) then
    (scanPair configFormat (lineStart line)).map Prod.snd
  else none

/-- The name of the section that the loop remembers after some lines. -/
def remembered (lines : List (List UInt8)) : Option (List UInt8) :=
  (lines.filterMap quotedName).getLast?

theorem not_skipped {c : UInt8} {w p : List UInt8} (h : (c :: w).isPrefixOf p = true)
    (h10 : c ≠ 10) (h35 : c ≠ 35) : ¬(p = [] ∨ p.head? = some 10 ∨ p.head? = some 35) := by
  obtain ⟨t, rfl⟩ := List.isPrefixOf_iff_prefix.mp h
  simp [h10, h35]

/-- A config line is no option. -/
theorem not_option_of_config {p : List UInt8} (h : (ascii "config ").isPrefixOf p = true) :
    (ascii "option ").isPrefixOf p = false := by
  obtain ⟨t, rfl⟩ := List.isPrefixOf_iff_prefix.mp h
  rfl

/-- **A line sets the section to the name in it, if it has one, and the option to its value.** -/
theorem parseLine_eq (st : UciState ρ) (line : List UInt8) :
    parseLine st line = ⟨(quotedName line).or st.section_,
      match readOption line, st.section_ with
      | some (key, value), some section_ => applyOption st.cfg section_ key value
      | _, _ => st.cfg⟩ := by
  obtain ⟨section_, cfg⟩ := st
  unfold parseLine quotedName readOption
  dsimp only
  by_cases hconfig : (ascii "config ").isPrefixOf (lineStart line) = true
  · have hskip := not_skipped hconfig (by decide) (by decide)
    rw [if_neg hskip, if_pos hconfig, if_pos hconfig, not_option_of_config hconfig]
    cases scanPair configFormat (lineStart line) with
    | none => rfl
    | some x => rfl
  · rw [if_neg hconfig, if_neg hconfig, Option.none_or]
    by_cases hoption : (ascii "option ").isPrefixOf (lineStart line) = true
    · have hskip := not_skipped hoption (by decide) (by decide)
      rw [if_neg hskip, if_pos hoption, if_pos hoption]
      cases scanOption (lineStart line) with
      | none => rfl
      | some x =>
          cases section_ with
          | none => rfl
          | some section_ => rfl
    · rw [if_neg hoption, if_neg hoption, ite_self]

theorem parseLines_snoc (cfg : ClientConfig ρ) (lines : List (List UInt8)) (line : List UInt8) :
    parseLines cfg (lines ++ [line]) = parseLine (parseLines cfg lines) line := by
  rw [parseLines, List.foldl_append]
  rfl

/-- **The section that the loop remembers is the name in the last line that has one.** -/
theorem section_parseLines (cfg : ClientConfig ρ) (lines : List (List UInt8)) :
    (parseLines cfg lines).section_ = remembered lines := by
  induction lines using List.reverseRecOn with
  | nil => rfl
  | append_singleton lines line ih =>
      rw [parseLines_snoc, parseLine_eq, ih, remembered, remembered, List.filterMap_append]
      cases hq : quotedName line with
      | none => simp [hq]
      | some name => simp [hq]

theorem afterKeyword_blank {w line r : List UInt8} (h : lineStart line = w ++ 32 :: r) :
    afterKeyword w line = some r := by
  have hpre : w.isPrefixOf (w ++ 32 :: r) = true :=
    List.isPrefixOf_iff_prefix.mpr (List.prefix_append _ _)
  unfold afterKeyword
  rw [h, if_pos hpre, List.drop_left]
  rfl

/-- **The short options that the loop reads are those of the lines with a blank after the
keyword.** -/
theorem readOption_iff {line key v : List UInt8} (hkey : key.length < 63) :
    readOption line = some (key, v) ↔ (ascii "option ").isPrefixOf (lineStart line) = true ∧
      ∃ u, optionLine line = some (key, u) ∧ v = shown u := by
  unfold readOption
  by_cases hp : (ascii "option ").isPrefixOf (lineStart line) = true
  · rw [if_pos hp]
    obtain ⟨r, hr⟩ := List.isPrefixOf_iff_prefix.mp hp
    have hstart : lineStart line = ascii "option" ++ 32 :: r := hr.symm
    have hline : optionLine line = if (wordOf r).2.dropWhile isSpace = [] then none
        else some ((wordOf r).1, (wordOf r).2.dropWhile isSpace) := by
      rw [optionLine, afterKeyword_blank hstart]
      rfl
    rw [hline, hstart]
    constructor
    · intro h
      obtain ⟨hne, htake⟩ := scanOption_key h
      have hlen : (wordOf r).1.length ≤ 63 := by
        rw [htake, List.length_take] at hkey
        omega
      rw [List.take_of_length_le hlen] at htake
      rw [scanOption_fits hne hlen rfl] at h
      split_ifs at h with hu
      obtain ⟨rfl, rfl⟩ := Prod.mk.inj (Option.some.inj h)
      exact ⟨hstart ▸ hp, _, if_neg hu, rfl⟩
    · rintro ⟨-, u, hu, rfl⟩
      split_ifs at hu with hnil
      obtain ⟨rfl, rfl⟩ := Prod.mk.inj (Option.some.inj hu)
      have hne : (wordOf r).1 ≠ [] := by
        intro hw
        refine hnil ?_
        rw [wordOf_eq_nil_iff] at hw
        unfold wordOf
        rw [hw]
        rfl
      rw [scanOption_fits hne hkey.le rfl, if_neg hnil]
  · rw [if_neg hp]
    exact iff_of_false (by simp) fun h => hp h.1

/-! ### The fields -/

theorem server_ne_client : ascii "server" ≠ ascii "client" := by decide

theorem number_applyOption (cfg : ClientConfig ρ) (section_ key value : List UInt8) (f : Number) :
    (applyOption cfg section_ key value).number f =
      if section_ = f.sectionName ∧ key = f.key then
        (numberIn f.lo f.hi value).getD (cfg.number f)
      else cfg.number f := by
  have hport : ascii "host" ≠ ascii "port" := by decide
  have hslot : ascii "client_id" ≠ ascii "client_slot" := by decide
  unfold applyOption
  by_cases hs : section_ = ascii "server"
  · subst hs
    rw [if_pos rfl]
    by_cases hh : key = ascii "host"
    · subst hh
      cases f <;> simp [ClientConfig.number, Number.sectionName, Number.key, hport,
        server_ne_client]
    · rw [if_neg hh]
      by_cases hp : key = ascii "port"
      · subst hp
        cases f <;> simp [ClientConfig.number, Number.sectionName, Number.key, Number.lo,
          Number.hi, server_ne_client]
      · rw [if_neg hp]
        cases f <;> simp [ClientConfig.number, Number.sectionName, Number.key, hp,
          server_ne_client]
  · rw [if_neg hs]
    by_cases hc : section_ = ascii "client"
    · subst hc
      rw [if_pos rfl]
      by_cases hi : key = ascii "client_id"
      · subst hi
        cases f <;> simp [ClientConfig.number, Number.sectionName, Number.key, Number.lo,
          Number.hi, hslot, server_ne_client.symm]
      · rw [if_neg hi]
        by_cases hl : key = ascii "client_slot"
        · subst hl
          cases f <;> simp [ClientConfig.number, Number.sectionName, Number.key, Number.lo,
            Number.hi, hslot.symm, server_ne_client.symm]
        · rw [if_neg hl]
          cases f <;> simp [ClientConfig.number, Number.sectionName, Number.key, hi, hl,
            server_ne_client.symm]
    · rw [if_neg hc]
      cases f <;> simp [Number.sectionName, hs, hc]

theorem serverHost_applyOption (cfg : ClientConfig ρ) (section_ key value : List UInt8) :
    (applyOption cfg section_ key value).serverHost =
      if section_ = ascii "server" ∧ key = ascii "host" then trimHost value
      else cfg.serverHost := by
  unfold applyOption
  split_ifs <;> simp_all

theorem rest_applyOption (cfg : ClientConfig ρ) (section_ key value : List UInt8) :
    (applyOption cfg section_ key value).rest = cfg.rest := by
  unfold applyOption
  split_ifs <;> rfl

/-! ### The condition on a line -/

/-- The loop applies an option to a section: the name of the section is the one that it remembers,
and a blank follows the keyword. -/
def Applies (sectionName : List UInt8) (name : Option (List UInt8)) (line : List UInt8) : Prop :=
  name = some sectionName ∧ (ascii "option ").isPrefixOf (lineStart line) = true

instance (sectionName : List UInt8) (name : Option (List UInt8)) (line : List UInt8) :
    Decidable (Applies sectionName name line) := inferInstanceAs (Decidable (_ ∧ _))

/-- Nothing goes wrong with a host: it is not set by the options of another section, or to empty
quotes, except to what it is already. -/
def HostSound (name : Option (List UInt8)) (current line u host : List UInt8) : Prop :=
  Applies (ascii "server") name line →
    (current = ascii "server" ∧ ¬EmptyQuoted u) ∨ trimHost (shown u) = host

/-- Nothing goes wrong with a number, except where it leaves the number that the configuration
holds: no option of another section is applied, none of the section is missed, no value that is
not made up of digits is accepted, and none is cut. -/
structure NumberSound (f : Number) (name : Option (List UInt8)) (current line u : List UInt8)
    (x : ℤ) : Prop where
  stale : Applies f.sectionName name line → current ≠ f.sectionName →
    ∀ n, numberIn f.lo f.hi (shown u) = some n → n = x
  missed : ¬Applies f.sectionName name line → current = f.sectionName →
    ∀ n, f.decimal (valueText u) = some n → n = x
  loose : Applies f.sectionName name line → current = f.sectionName → ¬IsNumber (valueText u) →
    ∀ n, numberIn f.lo f.hi (shown u) = some n → n = x
  long : Applies f.sectionName name line → current = f.sectionName → IsNumber (valueText u) →
    (valueText u).length ≤ 511 ∨
      (f.decimal ((valueText u).take 511)).getD x = (f.decimal (valueText u)).getD x

/-- Nothing goes wrong with a line. -/
structure LineSound (name : Option (List UInt8)) (current line : List UInt8)
    (c : ClientConfig ρ) : Prop where
  host : ∀ u, optionLine line = some (ascii "host", u) →
    HostSound name current line u c.serverHost
  number : ∀ (f : Number) u, optionLine line = some (f.key, u) →
    NumberSound f name current line u (c.number f)

theorem hi_le (f : Number) : f.hi ≤ 65535 := by
  cases f <;> decide

theorem length_key_lt (f : Number) : f.key.length < 63 := by
  cases f <;> decide

theorem numberIn_eq_some {lo hi n : ℤ} {value : List UInt8} :
    numberIn lo hi value = some n ↔ strtol value = (n, []) ∧ lo ≤ n ∧ n ≤ hi := by
  unfold numberIn
  simp only [Option.ite_none_right_eq_some, Option.some.injEq]
  constructor
  · rintro ⟨⟨hrest, hlo, hhi⟩, rfl⟩
    exact ⟨Prod.ext rfl hrest, hlo, hhi⟩
  · rintro ⟨heq, hlo, hhi⟩
    rw [heq]
    exact ⟨⟨rfl, hlo, hhi⟩, rfl⟩

theorem numberIn_of_isNumber (f : Number) {v : List UInt8} (h : IsNumber v) :
    numberIn f.lo f.hi v = f.decimal v := by
  have hhi := hi_le f
  unfold numberIn Number.decimal
  rw [strtol_of_isNumber h]
  by_cases hv : (value v : ℤ) ≤ f.hi
  · rw [min_eq_left (by omega)]
    simp [h, hv]
  · rw [if_neg (by simp only; omega), if_neg (by omega)]

theorem shown_of_isNumber {u : List UInt8} (h : IsNumber (valueText u)) :
    shown u = (valueText u).take 511 := by
  refine if_neg fun he => h.1 ?_
  obtain ⟨hq, hs⟩ := (emptyQuotes_iff u).mp he
  obtain ⟨t, rfl⟩ := List.head?_eq_some_iff.mp hq
  rw [List.tail_cons] at hs
  have hcut := cut_spanned t
  rw [hs, List.takeWhile_nil] at hcut
  exact (List.take_eq_nil_iff.mp hcut.symm).resolve_left (by decide)

theorem isNumber_take {v : List UInt8} (h : IsNumber v) : IsNumber (v.take 511) :=
  ⟨fun hnil => h.1 ((List.take_eq_nil_iff.mp hnil).resolve_left (by decide)),
    fun c hc => h.2 c (List.mem_of_mem_take hc)⟩

theorem getD_eq_iff {o : Option ℤ} {x : ℤ} : o.getD x = x ↔ ∀ n, o = some n → n = x := by
  cases o with
  | none => simp
  | some n => simp

/-- **What the loop makes of a number is what is due exactly when nothing goes wrong.** -/
theorem numberSound_iff (f : Number) (name : Option (List UInt8)) (current line u : List UInt8)
    (x : ℤ) :
    (if Applies f.sectionName name line then (numberIn f.lo f.hi (shown u)).getD x else x) =
        (if current = f.sectionName then f.decimal (valueText u) else none).getD x ↔
      NumberSound f name current line u x := by
  by_cases ha : Applies f.sectionName name line
  · rw [if_pos ha]
    by_cases hc : current = f.sectionName
    · rw [if_pos hc]
      by_cases hn : IsNumber (valueText u)
      · rw [shown_of_isNumber hn, numberIn_of_isNumber f (isNumber_take hn)]
        constructor
        · exact fun h => ⟨fun _ h' => absurd hc h', fun h' => absurd ha h',
            fun _ _ h' => absurd hn h', fun _ _ _ => .inr h⟩
        · intro h
          rcases h.long ha hc hn with hlen | heq
          · rw [List.take_of_length_le hlen]
          · exact heq
      · have hnone : f.decimal (valueText u) = none := if_neg fun h => hn h.1
        rw [hnone, Option.getD_none, getD_eq_iff]
        exact ⟨fun h => ⟨fun _ h' => absurd hc h', fun h' => absurd ha h', fun _ _ _ => h,
          fun _ _ h' => absurd h' hn⟩, fun h => h.loose ha hc hn⟩
    · rw [if_neg hc, Option.getD_none, getD_eq_iff]
      exact ⟨fun h => ⟨fun _ _ => h, fun h' => absurd ha h', fun _ h' => absurd h' hc,
        fun _ h' => absurd h' hc⟩, fun h => h.stale ha hc⟩
  · rw [if_neg ha]
    by_cases hc : current = f.sectionName
    · rw [if_pos hc, eq_comm, getD_eq_iff]
      exact ⟨fun h => ⟨fun h' => absurd h' ha, fun _ _ => h, fun h' => absurd h' ha,
        fun h' => absurd h' ha⟩, fun h => h.missed ha hc⟩
    · rw [if_neg hc]
      exact iff_of_true rfl ⟨fun h' => absurd h' ha, fun _ h' => absurd h' hc,
        fun h' => absurd h' ha, fun h' => absurd h' ha⟩

/-! ### The fields after a line -/

theorem field_parseLine {α : Type} {p : ClientConfig ρ → α} {sectionName key : List UInt8}
    {g : List UInt8 → α → α} (hkey : key.length < 63)
    (hp : ∀ c s k v, p (applyOption c s k v) = if s = sectionName ∧ k = key then g v (p c)
      else p c) (st : UciState ρ) (line : List UInt8) :
    (∀ u, optionLine line = some (key, u) → p (parseLine st line).cfg =
        if Applies sectionName st.section_ line then g (shown u) (p st.cfg) else p st.cfg) ∧
      ((∀ u, optionLine line ≠ some (key, u)) → p (parseLine st line).cfg = p st.cfg) := by
  have hkeep : ¬(Applies sectionName st.section_ line ∧ ∃ u, optionLine line = some (key, u)) →
      p (parseLine st line).cfg = p st.cfg := by
    intro hno
    rw [parseLine_eq]
    cases hread : readOption line with
    | none => rfl
    | some x =>
        cases hname : st.section_ with
        | none => rfl
        | some section_ =>
            obtain ⟨k, v⟩ := x
            simp only
            rw [hp]
            split_ifs with hmatch
            · obtain ⟨rfl, rfl⟩ := hmatch
              obtain ⟨hblank, u, hu, -⟩ := (readOption_iff hkey).mp hread
              exact absurd ⟨⟨hname, hblank⟩, u, hu⟩ hno
            · rfl
  constructor
  · intro u hu
    split_ifs with ha
    · obtain ⟨hname, hblank⟩ := ha
      have hread := (readOption_iff hkey).mpr ⟨hblank, u, hu, rfl⟩
      rw [parseLine_eq, hread, hname]
      simp only
      rw [hp, if_pos ⟨rfl, rfl⟩]
    · exact hkeep fun h => ha h.1
  · intro hno
    exact hkeep fun ⟨_, u, hu⟩ => hno u hu

theorem rest_parseLine (st : UciState ρ) (line : List UInt8) :
    (parseLine st line).cfg.rest = st.cfg.rest := by
  rw [parseLine_eq]
  cases readOption line with
  | none => rfl
  | some x =>
      cases st.section_ with
      | none => rfl
      | some section_ => exact rest_applyOption _ _ _ _

/-- **A number is what is due exactly when nothing goes wrong with it.** -/
theorem number_iff (st : UciState ρ) (current line : List UInt8) (f : Number) :
    (parseLine st line).cfg.number f = (dueNumber f current line).getD (st.cfg.number f) ↔
      ∀ u, optionLine line = some (f.key, u) →
        NumberSound f st.section_ current line u (st.cfg.number f) := by
  obtain ⟨hset, hkeep⟩ := field_parseLine (p := fun c => c.number f)
    (length_key_lt f) (fun c s k v => number_applyOption c s k v f) st line
  by_cases h : ∃ u, optionLine line = some (f.key, u)
  · obtain ⟨u, hu⟩ := h
    have hdue : dueNumber f current line =
        if current = f.sectionName then f.decimal (valueText u) else none := by
      rw [dueNumber, hu, Option.bind_some]
      simp
    rw [hset u hu, hdue, numberSound_iff]
    constructor
    · intro hsound u' hu'
      obtain ⟨-, rfl⟩ := Prod.mk.inj (Option.some.inj (hu.symm.trans hu'))
      exact hsound
    · exact fun hsound => hsound u hu
  · have hno := not_exists.mp h
    have hdue : dueNumber f current line = none := by
      unfold dueNumber
      cases ho : optionLine line with
      | none => rfl
      | some x =>
          refine if_neg fun hmatch => hno x.2 ?_
          rw [ho, ← hmatch.2]
    rw [hkeep hno, hdue]
    exact iff_of_true rfl fun u hu => absurd hu (hno u)

theorem serverHost_parseLine (st : UciState ρ) (line : List UInt8) :
    (∀ u, optionLine line = some (ascii "host", u) → (parseLine st line).cfg.serverHost =
        if Applies (ascii "server") st.section_ line then trimHost (shown u)
        else st.cfg.serverHost) ∧
      ((∀ u, optionLine line ≠ some (ascii "host", u)) →
        (parseLine st line).cfg.serverHost = st.cfg.serverHost) :=
  field_parseLine (p := fun c : ClientConfig ρ => c.serverHost) (g := fun v _ => trimHost v)
    (by decide) serverHost_applyOption st line

theorem dueNumber_of_ne {f : Number} {current : List UInt8} (h : current ≠ f.sectionName)
    (line : List UInt8) : dueNumber f current line = none :=
  Option.bind_eq_none_iff.mpr fun _ _ => if_neg fun hmatch => h hmatch.1

theorem dueNumber_of_empty {line key u : List UInt8} (hu : optionLine line = some (key, u))
    (hempty : EmptyQuoted u) (f : Number) (current : List UInt8) :
    dueNumber f current line = none := by
  rw [dueNumber, hu, Option.bind_some, ite_eq_right_iff]
  exact fun _ => if_neg fun hn => hn.1.1 hempty.2

section follows

variable {st : UciState ρ} {current line : List UInt8}

theorem LineSound.host_of_changed (h : LineSound st.section_ current line st.cfg)
    (hne : (parseLine st line).cfg.serverHost ≠ st.cfg.serverHost) :
    ∃ u, optionLine line = some (ascii "host", u) ∧ current = ascii "server" ∧ ¬EmptyQuoted u := by
  obtain ⟨hset, hkeep⟩ := serverHost_parseLine st line
  by_contra hno
  refine hne ?_
  by_cases hopt : ∃ u, optionLine line = some (ascii "host", u)
  · obtain ⟨u, hu⟩ := hopt
    rw [hset u hu]
    split_ifs with ha
    · rcases h.host u hu ha with hleft | hright
      · exact absurd ⟨u, hu, hleft⟩ hno
      · exact hright
    · rfl
  · exact hkeep (not_exists.mp hopt)

/-- Where a line follows its section nothing goes wrong with a host. -/
theorem LineFollows.hostSound (h : LineFollows current line st.cfg (parseLine st line).cfg)
    {u : List UInt8} (hu : optionLine line = some (ascii "host", u)) :
    HostSound st.section_ current line u st.cfg.serverHost := by
  intro ha
  have hset := (serverHost_parseLine st line).1 u hu
  rw [if_pos ha] at hset
  by_cases heq : trimHost (shown u) = st.cfg.serverHost
  · exact .inr heq
  · refine .inl ⟨h.server (.inl fun hsame => heq (hset.symm.trans hsame)), fun hempty => ?_⟩
    rw [h.empty _ u hu hempty] at hset
    exact heq hset.symm

/-- A line that nothing goes wrong with follows its section. -/
theorem LineSound.follows (h : LineSound st.section_ current line st.cfg) :
    LineFollows current line st.cfg (parseLine st line).cfg := by
  have hnum := fun f => (number_iff st current line f).mpr (h.number f)
  have hdue : ∀ f, (parseLine st line).cfg.number f ≠ st.cfg.number f →
      current = f.sectionName := by
    intro f hne
    by_contra hcur
    refine hne ((hnum f).trans ?_)
    rw [dueNumber_of_ne hcur, Option.getD_none]
  refine ⟨?_, ?_, hnum, ?_, rest_parseLine st line⟩
  · rintro (hne | hne)
    · obtain ⟨u, -, hcur, -⟩ := h.host_of_changed hne
      exact hcur
    · exact hdue .port hne
  · rintro (hne | hne)
    · exact hdue .clientId hne
    · exact hdue .clientSlot hne
  · intro key u hu hempty
    have hsame : ∀ f, (parseLine st line).cfg.number f = st.cfg.number f := by
      intro f
      rw [hnum f, dueNumber_of_empty hu hempty, Option.getD_none]
    have hhost : (parseLine st line).cfg.serverHost = st.cfg.serverHost := by
      by_contra hne
      obtain ⟨u', hu', -, hnot⟩ := h.host_of_changed hne
      obtain ⟨-, rfl⟩ := Prod.mk.inj (Option.some.inj (hu.symm.trans hu'))
      exact hnot hempty
    exact ClientConfig.ext hhost (hsame .port) (hsame .clientId) (hsame .clientSlot)
      (rest_parseLine st line)

end follows

/-- **A line follows its section exactly when nothing goes wrong with it.** -/
theorem lineFollows_iff (st : UciState ρ) (current line : List UInt8) :
    LineFollows current line st.cfg (parseLine st line).cfg ↔
      LineSound st.section_ current line st.cfg := by
  constructor
  · exact fun h => ⟨fun _ hu => h.hostSound hu,
      fun f => (number_iff st current line f).mp (h.number f)⟩
  · exact LineSound.follows

/-! ### All the lines -/

/-- **The lines of a file, each shorter than the buffer, are what the loop goes through.** -/
theorem parseOpenwrtConfig_lines (cfg : ClientConfig ρ) {lines : List (List UInt8)}
    {last : List UInt8} (h : ∀ line ∈ lines, IsLine line ∧ line.length < 1024)
    (hlast : 10 ∉ last) (hlen : last.length < 1024) :
    parseOpenwrtConfig cfg (some (lines.flatten ++ last)) =
      (parseLines cfg (lines ++ if last = [] then [] else [last])).cfg := by
  have hcount : lines.length ≤ lines.flatten.length := by
    rw [List.length_flatten, ← List.length_map (f := List.length)]
    refine List.length_le_sum_of_one_le _ fun k hk => ?_
    obtain ⟨line, hline, rfl⟩ := List.mem_map.mp hk
    obtain ⟨body, rfl, -⟩ := (h line hline).1
    rw [List.length_append, List.length_singleton]
    omega
  have hread := fgetsAll_lines (n := 1023) (k := (lines.flatten ++ last).length + 1)
    (fun line hl => ⟨(h line hl).1, Nat.le_of_lt_succ (h line hl).2⟩) hlast
    (Nat.le_of_lt_succ hlen) (by rw [List.length_append]; omega)
  rw [parseOpenwrtConfig, hread]

theorem effective_snoc (f : Number) (pre lines : List (List UInt8)) (line : List UInt8) :
    effective f pre (lines ++ [line]) =
      effective f pre lines ++ (dueNumber f (currentSection (pre ++ lines)) line).toList := by
  induction lines generalizing pre with
  | nil => rw [List.nil_append, effective, effective, effective, List.append_nil, List.append_nil,
      List.nil_append]
  | cons l lines ih =>
      rw [List.cons_append, effective, effective, ih, List.append_assoc, List.append_assoc,
        List.singleton_append]

/-- When every line follows its section, the last of the numbers for an option wins. -/
theorem last_of_lines {cfg : ClientConfig ρ} {lines : List (List UInt8)}
    (h : ∀ pre line post, lines = pre ++ line :: post → LineFollows (currentSection pre) line
      (parseLines cfg pre).cfg (parseLines cfg (pre ++ [line])).cfg) (f : Number) :
    (parseLines cfg lines).cfg.number f =
      ((effective f [] lines).getLast?).getD (cfg.number f) := by
  induction lines using List.reverseRecOn with
  | nil => rfl
  | append_singleton lines line ih =>
      have hlines := ih fun pre l post heq => h pre l (post ++ [line]) (by rw [heq]; simp)
      rw [(h lines line [] rfl).number f, hlines, effective_snoc, List.nil_append,
        getLast?_getD_append]
      cases dueNumber f (currentSection lines) line with
      | none => rfl
      | some n => rfl

/-- Nothing goes wrong with a line where it stands. -/
def Sound (cfg : ClientConfig ρ) (lines : List (List UInt8)) : Prop :=
  ∀ pre line post, lines = pre ++ line :: post →
    LineSound (remembered pre) (currentSection pre) line (parseLines cfg pre).cfg

/-- A line in the documented form: a config line has a quoted name, an option has a blank after the
keyword, a host is not empty, and a number has digits only, unless `strtol()` stops within it. -/
structure Plain (line : List UInt8) : Prop where
  config : quotedName line = configLine line
  option : ∀ key u, optionLine line = some (key, u) →
    (ascii "option ").isPrefixOf (lineStart line) = true
  host : ∀ u, optionLine line = some (ascii "host", u) → ¬EmptyQuoted u
  number : ∀ (f : Number) u, optionLine line = some (f.key, u) →
    (IsNumber (valueText u) ∧ (valueText u).length ≤ 511) ∨ (strtol (shown u)).2 ≠ []

/-- In lines of the documented form the loop remembers the section it is in. -/
theorem remembered_iff {lines : List (List UInt8)} (h : ∀ line ∈ lines, Plain line)
    {name : List UInt8} (hne : name ≠ []) :
    remembered lines = some name ↔ currentSection lines = name := by
  have hsame : lines.filterMap quotedName = lines.filterMap configLine :=
    List.filterMap_congr fun line hline => (h line hline).config
  rw [remembered, currentSection, hsame]
  cases (lines.filterMap configLine).getLast? with
  | none => exact iff_of_false (by simp) (Ne.symm hne)
  | some x => exact Option.some_inj

/-- **Nothing goes wrong with lines of the documented form.** -/
theorem sound_of_plain (cfg : ClientConfig ρ) {lines : List (List UInt8)}
    (h : ∀ line ∈ lines, Plain line) : Sound cfg lines := by
  rintro pre line post rfl
  have hline := h line (by simp)
  have hpre : ∀ l ∈ pre, Plain l := fun l hl => h l (List.mem_append_left _ hl)
  have happlies : ∀ {name : List UInt8}, name ≠ [] → ∀ {key u}, optionLine line = some (key, u) →
      (Applies name (remembered pre) line ↔ currentSection pre = name) := by
    intro name hne key u hu
    rw [← remembered_iff hpre hne]
    exact and_iff_left (hline.option key u hu)
  constructor
  · intro u hu ha
    exact .inl ⟨(happlies (by decide) hu).mp ha, hline.host u hu⟩
  · intro f u hu
    have hname : f.sectionName ≠ [] := by cases f <;> decide
    refine ⟨fun ha hcur => absurd ((happlies hname hu).mp ha) hcur,
      fun ha hcur => absurd ((happlies hname hu).mpr hcur) ha, fun _ _ hn n hnum => ?_,
      fun _ _ hn => .inl ?_⟩
    · rcases hline.number f u hu with ⟨hn', -⟩ | hstop
      · exact absurd hn' hn
      · exact absurd (numberIn_eq_some.mp hnum).1 fun heq => hstop (by rw [heq])
    · rcases hline.number f u hu with ⟨-, hlen⟩ | hstop
      · exact hlen
      · rw [shown_of_isNumber hn, strtol_of_isNumber (isNumber_take hn)] at hstop
        exact absurd rfl hstop

/-- **The options of a file are attributed to the right sections exactly when nothing goes
wrong with its lines.** -/
theorem attributed_iff (cfg : ClientConfig ρ) (lines : List (List UInt8)) :
    Attributed cfg lines ↔ Sound cfg lines := by
  have hline : ∀ pre line, LineFollows (currentSection pre) line (parseLines cfg pre).cfg
      (parseLines cfg (pre ++ [line])).cfg ↔
      LineSound (remembered pre) (currentSection pre) line (parseLines cfg pre).cfg := by
    intro pre line
    rw [parseLines_snoc, lineFollows_iff, section_parseLines]
  constructor
  · intro h pre line post heq
    exact (hline pre line).mp (h.line pre line post heq)
  · intro h
    have hlines := fun pre line post heq => (hline pre line).mpr (h pre line post heq)
    exact ⟨hlines, last_of_lines hlines⟩

/-- After an anonymous config line the options still count in the section before it. -/
theorem anonymousSection_missed :
    ¬∀ (cfg : ClientConfig Unit) lines, Attributed cfg lines := by
  intro h
  have hline := (h ⟨[], 9998, -1, -1, ()⟩ [ascii "config server 'server'\n",
    ascii "config ionmesh\n", ascii "\toption port '5000'\n"]).line
    [ascii "config server 'server'\n", ascii "config ionmesh\n"]
    (ascii "\toption port '5000'\n") [] rfl
  exact absurd (hline.server (.inr (by decide +kernel))) (by decide +kernel)

end Remsim.OpenWrt
