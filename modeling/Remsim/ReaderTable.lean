import Remsim.CString
import Remsim.Lists
import Remsim.Process

/-! # The table of readers (`bankd_pcsc_slots.csv`)

`bankd_pcsc_read_slotnames()` gives the file to libcsv, which calls `cb1()` for every field and
`cb2()` after every row.  The callbacks keep the name of the next field and the entry under
construction in a `ParserState`; `regcomp()` is the parameter `valid`, which says whether a string
is an extended regular expression.

The callbacks fail on some rows: a `ParserFault` is an assertion, or a pointer that is `NULL` where
it must not be.  `tolerates_iff`: a table is read as documented exactly when each of its rows has
three fields at least, and three fields only unless the last one is no regular expression.  Rows
of one or two fields make `cb2()` call `regcomp()` without a pattern, and of a longer row the last
field becomes the name. -/

namespace Remsim.Bankd

open CString Decimal ListLib

/-! ### The callbacks -/

/-- `enum parser_state_name`. -/
inductive ParserStateName
  | none
  | bankNr
  | slotNr
  | pcscName
deriving DecidableEq, Repr

/-- `struct pcsc_slot_name`. -/
structure PcscSlotName where
  slot : BankSlot
  nameRegex : Option (List UInt8)
deriving DecidableEq, Repr

/-- `struct parser_state`, with the list `pcsc_slot_names` of the `bankd`. -/
structure ParserState where
  state : ParserStateName
  cur : Option PcscSlotName
  pcscSlotNames : List PcscSlotName
deriving DecidableEq, Repr

/-- How a callback fails: an `OSMO_ASSERT`, a row without an entry, or `regcomp()` called without
a pattern. -/
inductive ParserFault
  | assertion
  | nullEntry
  | nullPattern
deriving DecidableEq, Repr

/-- `parser_state_init()`. -/
def parserStateInit (pcscSlotNames : List PcscSlotName) : ParserState where
  state := .bankNr
  cur := none
  pcscSlotNames := pcscSlotNames

/-- `cb1()`: a field.  libcsv ends it with a NUL. -/
def cb1 (ps : ParserState) (s : List UInt8) : Except ParserFault ParserState :=
  let field := cstr s
  match ps.state, ps.cur with
  | .bankNr, none =>
      .ok { ps with state := .slotNr, cur := some ⟨⟨.ofInt (atoi field), 0⟩, none⟩ }
  | .slotNr, some cur =>
      .ok { ps with state := .pcscName, cur := some { cur with
        slot := { cur.slot with slotNr := .ofInt (atoi field) } } }
  | .pcscName, some cur => .ok { ps with cur := some { cur with nameRegex := some field } }
  | _, _ => .error .assertion

variable (valid : List UInt8 → Bool)

/-- `cb2()`: the end of a row. -/
def cb2 (ps : ParserState) : Except ParserFault ParserState :=
  match ps.cur with
  | none => .error .nullEntry
  | some sn =>
      match sn.nameRegex with
      | none => .error .nullPattern
      | some pattern =>
          if valid pattern then .ok (parserStateInit (ps.pcscSlotNames ++ [sn]))
          else .ok (parserStateInit ps.pcscSlotNames)

/-- One row: `cb1()` for its fields, then `cb2()`. -/
def parseRow (ps : ParserState) (row : List (List UInt8)) : Except ParserFault ParserState :=
  match row.foldlM cb1 ps with
  | .ok ps => cb2 valid ps
  | .error e => .error e

/-- `bankd_pcsc_read_slotnames()` with the rows of the file. -/
def readSlotnames (pcscSlotNames : List PcscSlotName) (rows : List (List (List UInt8))) :
    Except ParserFault (List PcscSlotName) :=
  match rows.foldlM (parseRow valid) (parserStateInit pcscSlotNames) with
  | .ok ps => .ok ps.pcscSlotNames
  | .error e => .error e

/-- `bankd_pcsc_get_slot_name()`. -/
def getSlotName (pcscSlotNames : List PcscSlotName) (slot : BankSlot) : Option (List UInt8) :=
  (pcscSlotNames.find? fun cur => cur.slot = slot).bind PcscSlotName.nameRegex

/-! ### What the table says -/

/-- The slot that the first two fields of a row name. -/
def rowSlot (bankNr slotNr : List UInt8) : BankSlot :=
  ⟨.ofInt (atoi (cstr bankNr)), .ofInt (atoi (cstr slotNr))⟩

/-- A row that is to be listed: it has three fields, and the third is a regular expression. -/
def listed : List (List UInt8) → Option PcscSlotName
  | [bankNr, slotNr, name] =>
      if 0 ∉ name ∧ valid name = true then some ⟨rowSlot bankNr slotNr, some name⟩ else none
  | _ => none

/-- The name of the first listed row for a slot. -/
def FirstFor (rows : List (List (List UInt8))) (slot : BankSlot) :
    Option (List UInt8) → Prop
  | some name => ∃ pre row post, rows = pre ++ row :: post ∧
      listed valid row = some ⟨slot, some name⟩ ∧
      ∀ r ∈ pre, ∀ e, listed valid r = some e → e.slot ≠ slot
  | none => ∀ r ∈ rows, ∀ e, listed valid r = some e → e.slot ≠ slot

/-- The table is read without a fault, its listed rows are found in the order of the file, and
the name of a slot is that of the first one for it. -/
def Tolerates (rows : List (List (List UInt8))) : Prop :=
  ∃ names, readSlotnames valid [] rows = .ok names ∧ names = rows.filterMap (listed valid) ∧
    ∀ slot, FirstFor valid rows slot (getSlotName names slot)

/-! ### A row -/

/-- The last field of a row. -/
def lastField (row : List (List UInt8)) : List UInt8 := row.getLastD []

/-- The entry that the callbacks make of a row of three fields or more. -/
def entered : List (List UInt8) → Option PcscSlotName
  | bankNr :: slotNr :: name :: rest =>
      if valid (cstr (lastField (name :: rest))) then
        some ⟨rowSlot bankNr slotNr, some (cstr (lastField (name :: rest)))⟩
      else none
  | _ => none

theorem foldlM_names (e : PcscSlotName) (names : List PcscSlotName) (name : List UInt8)
    (rest : List (List UInt8)) :
    (name :: rest).foldlM cb1 ⟨.pcscName, some e, names⟩ = .ok ⟨.pcscName,
      some { e with nameRegex := some (cstr (lastField (name :: rest))) }, names⟩ := by
  induction rest generalizing e name with
  | nil => rfl
  | cons name' rest ih => exact ih { e with nameRegex := some (cstr name) } name'

variable {valid}

theorem exists_fields {row : List (List UInt8)} (h : 3 ≤ row.length) :
    ∃ bankNr slotNr name rest, row = bankNr :: slotNr :: name :: rest := by
  cases row with
  | nil => exact absurd h (by simp)
  | cons bankNr row =>
      cases row with
      | nil => exact absurd h (by simp)
      | cons slotNr row =>
          cases row with
          | nil => exact absurd h (by simp)
          | cons name rest => exact ⟨bankNr, slotNr, name, rest, rfl⟩

/-- **Of a row of three fields or more an entry is made, if its last field allows it, and the
next row starts anew.** -/
theorem parseRow_long (names : List PcscSlotName) {row : List (List UInt8)}
    (h : 3 ≤ row.length) :
    parseRow valid (parserStateInit names) row =
      .ok (parserStateInit (names ++ (entered valid row).toList)) := by
  obtain ⟨bankNr, slotNr, name, rest, rfl⟩ := exists_fields h
  have hrow : (bankNr :: slotNr :: name :: rest).foldlM cb1 (parserStateInit names) = _ :=
    foldlM_names ⟨rowSlot bankNr slotNr, none⟩ names name rest
  unfold parseRow entered
  rw [hrow]
  simp only [cb2]
  split_ifs
  · rfl
  · rw [Option.toList_none, List.append_nil]

/-- A row of fewer fields is not survived, but it is no assertion that fails. -/
theorem parseRow_short (valid : List UInt8 → Bool) (names : List PcscSlotName)
    {row : List (List UInt8)} (h : row.length < 3) :
    ∃ e, parseRow valid (parserStateInit names) row = .error e ∧ e ≠ .assertion := by
  cases row with
  | nil => exact ⟨.nullEntry, rfl, ParserFault.noConfusion⟩
  | cons bankNr row =>
      cases row with
      | nil => exact ⟨.nullPattern, rfl, ParserFault.noConfusion⟩
      | cons slotNr row =>
          cases row with
          | nil => exact ⟨.nullPattern, rfl, ParserFault.noConfusion⟩
          | cons name rest =>
              simp only [List.length_cons] at h
              omega

/-! ### The rows of a file -/

theorem foldlM_long (names : List PcscSlotName) {rows : List (List (List UInt8))}
    (h : ∀ row ∈ rows, 3 ≤ row.length) :
    rows.foldlM (parseRow valid) (parserStateInit names) =
      .ok (parserStateInit (names ++ rows.filterMap (entered valid))) := by
  induction rows generalizing names with
  | nil => rw [List.filterMap_nil, List.append_nil]; rfl
  | cons row rows ih =>
      have hrow := h row List.mem_cons_self
      have ih := ih (names ++ (entered valid row).toList) fun r hr =>
        h r (List.mem_cons_of_mem row hr)
      have happend : (row :: rows).filterMap (entered valid) =
          (entered valid row).toList ++ rows.filterMap (entered valid) := by
        cases he : entered valid row with
        | none => rw [List.filterMap_cons_none he]; rfl
        | some e => rw [List.filterMap_cons_some he]; rfl
      rw [List.foldlM_cons, parseRow_long names hrow, happend, ← List.append_assoc, ← ih]
      rfl

theorem foldlM_short (valid : List UInt8 → Bool) (names : List PcscSlotName)
    {rows : List (List (List UInt8))} (h : ∃ row ∈ rows, row.length < 3) :
    ∃ e, rows.foldlM (parseRow valid) (parserStateInit names) = .error e ∧ e ≠ .assertion := by
  induction rows generalizing names with
  | nil => exact absurd h (by simp)
  | cons row rows ih =>
      rw [List.foldlM_cons]
      by_cases hrow : row.length < 3
      · obtain ⟨e, he, hne⟩ := parseRow_short valid names hrow
        exact ⟨e, by rw [he]; rfl, hne⟩
      · obtain ⟨r, hr, hlen⟩ := h
        have hmem : r ∈ rows := by
          rcases List.mem_cons.mp hr with rfl | hr
          · exact absurd hlen hrow
          · exact hr
        obtain ⟨e, he, hne⟩ := ih (names ++ (entered valid row).toList) ⟨r, hmem, hlen⟩
        refine ⟨e, ?_, hne⟩
        rw [parseRow_long names (Nat.le_of_not_lt hrow), ← he]
        rfl

/-- **No row whatsoever makes an assertion of `cb1()` fail.** -/
theorem readSlotnames_ne_assertion (names : List PcscSlotName) (rows : List (List (List UInt8))) :
    readSlotnames valid names rows ≠ .error .assertion := by
  unfold readSlotnames
  by_cases h : ∀ row ∈ rows, 3 ≤ row.length
  · rw [foldlM_long names h]
    simp
  · push Not at h
    obtain ⟨e, he, hne⟩ := foldlM_short valid names h
    rw [he]
    exact fun heq => hne (Except.error.inj heq)

/-! ### The table -/

variable (valid)

/-- A row that is read as documented: it has three fields at least, and if the last one makes an
entry, it is the third, and ends where the string in it does. -/
def Regular (row : List (List UInt8)) : Prop :=
  3 ≤ row.length ∧
    (valid (cstr (lastField row)) = true → row.length = 3 ∧ 0 ∉ lastField row)

instance (row : List (List UInt8)) : Decidable (Regular valid row) :=
  inferInstanceAs (Decidable (_ ∧ _))

variable {valid}

theorem listed_eq_some_iff {row : List (List UInt8)} {e : PcscSlotName} :
    listed valid row = some e ↔ ∃ bankNr slotNr name, row = [bankNr, slotNr, name] ∧
      0 ∉ name ∧ valid name = true ∧ e = ⟨rowSlot bankNr slotNr, some name⟩ := by
  constructor
  · intro h
    unfold listed at h
    split at h
    · split_ifs at h with hname
      exact ⟨_, _, _, rfl, hname.1, hname.2, (Option.some.inj h).symm⟩
    · exact absurd h (by simp)
  · rintro ⟨bankNr, slotNr, name, rfl, hz, hv, rfl⟩
    exact if_pos ⟨hz, hv⟩

theorem entered_of_listed {row : List (List UInt8)} {e : PcscSlotName}
    (h : listed valid row = some e) : entered valid row = some e := by
  obtain ⟨bankNr, slotNr, name, rfl, hz, hv, rfl⟩ := listed_eq_some_iff.mp h
  have hlast : cstr (lastField [name]) = name := cstr_eq_self hz
  have hentered : entered valid [bankNr, slotNr, name] = if _ then _ else none := rfl
  rw [hentered, hlast, if_pos hv]

/-- A row that is long enough is regular when the entry made of it is the one to be listed. -/
theorem regular_iff {row : List (List UInt8)} (hlen : 3 ≤ row.length) :
    Regular valid row ↔ listed valid row = entered valid row := by
  obtain ⟨bankNr, slotNr, name, rest, rfl⟩ := exists_fields hlen
  have hlast : lastField (bankNr :: slotNr :: name :: rest) = lastField (name :: rest) := rfl
  unfold Regular
  rw [hlast]
  by_cases hv : valid (cstr (lastField (name :: rest))) = true
  · have he : entered valid (bankNr :: slotNr :: name :: rest) = some _ := if_pos hv
    rw [he]
    constructor
    · rintro ⟨-, h⟩
      obtain ⟨hthree, hz⟩ := h hv
      obtain rfl : rest = [] := by
        simp only [List.length_cons] at hthree
        exact List.length_eq_zero_iff.mp (by omega)
      have hname : cstr (lastField [name]) = name := cstr_eq_self hz
      rw [hname] at hv ⊢
      exact listed_eq_some_iff.mpr ⟨bankNr, slotNr, name, rfl, hz, hv, rfl⟩
    · intro h
      obtain ⟨b, s, n, hrow, hz, -⟩ := listed_eq_some_iff.mp h
      simp only [List.cons.injEq] at hrow
      obtain ⟨-, -, rfl, rfl⟩ := hrow
      exact ⟨hlen, fun _ => ⟨rfl, hz⟩⟩
  · have he : entered valid (bankNr :: slotNr :: name :: rest) = none := if_neg hv
    refine iff_of_true ⟨hlen, fun hv' => absurd hv' hv⟩ ?_
    cases hl : listed valid (bankNr :: slotNr :: name :: rest) with
    | none => exact he.symm
    | some e => exact (entered_of_listed hl).symm

theorem FirstFor.cons {row : List (List UInt8)} {rows : List (List (List UInt8))}
    {slot : BankSlot} {result : Option (List UInt8)} (h : FirstFor valid rows slot result)
    (hrow : ∀ e, listed valid row = some e → e.slot ≠ slot) :
    FirstFor valid (row :: rows) slot result := by
  cases result with
  | none => exact List.forall_mem_cons.mpr ⟨hrow, h⟩
  | some name =>
      obtain ⟨pre, r, post, rfl, hr, hpre⟩ := h
      exact ⟨row :: pre, r, post, rfl, hr, List.forall_mem_cons.mpr ⟨hrow, hpre⟩⟩

theorem firstFor_getSlotName (rows : List (List (List UInt8))) (slot : BankSlot) :
    FirstFor valid rows slot (getSlotName (rows.filterMap (listed valid)) slot) := by
  induction rows with
  | nil => exact fun r hr => absurd hr List.not_mem_nil
  | cons row rows ih =>
      cases hl : listed valid row with
      | none =>
          rw [List.filterMap_cons_none hl]
          exact ih.cons fun e he => absurd (hl.symm.trans he) (by simp)
      | some e =>
          rw [List.filterMap_cons_some hl]
          by_cases hslot : e.slot = slot
          · obtain ⟨b, s, name, -, -, -, rfl⟩ := listed_eq_some_iff.mp hl
            subst hslot
            have hname : getSlotName (⟨rowSlot b s, some name⟩ :: rows.filterMap (listed valid))
                (rowSlot b s) = some name := by
              rw [getSlotName, List.find?_cons_of_pos (by simp)]
              rfl
            rw [hname]
            exact ⟨[], row, rows, rfl, hl, fun r hr => absurd hr List.not_mem_nil⟩
          · have hnext : getSlotName (e :: rows.filterMap (listed valid)) slot =
                getSlotName (rows.filterMap (listed valid)) slot := by
              rw [getSlotName, List.find?_cons_of_neg (by simpa using hslot)]
              rfl
            rw [hnext]
            refine ih.cons fun e' he' => ?_
            obtain rfl := Option.some.inj (hl.symm.trans he')
            exact hslot

/-- The table as the workers of the process look it up, its names written as `text` does. -/
def readerNames (text : List UInt8 → String) (names : List PcscSlotName) :
    List (BankSlot × String) :=
  names.filterMap fun e => e.nameRegex.map fun name => (e.slot, text name)

theorem pcscGetSlotName_readerNames (text : List UInt8 → String)
    (rows : List (List (List UInt8))) (slot : BankSlot) :
    pcscGetSlotName (readerNames text (rows.filterMap (listed valid))) slot =
      (getSlotName (rows.filterMap (listed valid)) slot).map text := by
  induction rows with
  | nil => rfl
  | cons row rows ih =>
      cases hl : listed valid row with
      | none =>
          rw [List.filterMap_cons_none hl]
          exact ih
      | some e =>
          rw [List.filterMap_cons_some hl]
          obtain ⟨b, s, name, -, -, -, rfl⟩ := listed_eq_some_iff.mp hl
          have hcons : readerNames text
              (⟨rowSlot b s, some name⟩ :: rows.filterMap (listed valid)) =
              (rowSlot b s, text name) :: readerNames text (rows.filterMap (listed valid)) := rfl
          rw [hcons]
          unfold pcscGetSlotName getSlotName at ih ⊢
          by_cases hslot : rowSlot b s = slot
          · rw [List.find?_cons_of_pos (by simpa using hslot),
              List.find?_cons_of_pos (by simpa using hslot)]
            rfl
          · rw [List.find?_cons_of_neg (by simpa using hslot),
              List.find?_cons_of_neg (by simpa using hslot)]
            exact ih

/-- **The table is read as documented exactly when each of its rows is regular.** -/
theorem tolerates_iff (valid : List UInt8 → Bool) (rows : List (List (List UInt8))) :
    Tolerates valid rows ↔ ∀ row ∈ rows, Regular valid row := by
  constructor
  · rintro ⟨names, hread, heq, -⟩
    unfold readSlotnames at hread
    have hlong : ∀ row ∈ rows, 3 ≤ row.length := by
      by_contra hshort
      push Not at hshort
      obtain ⟨e, he, -⟩ := foldlM_short valid [] hshort
      rw [he] at hread
      exact absurd hread (by simp)
    rw [foldlM_long [] hlong] at hread
    obtain rfl := Except.ok.inj hread
    have hsame := (filterMap_eq_iff fun row _ e he => entered_of_listed he).mp heq.symm
    exact fun row hrow => (regular_iff (hlong row hrow)).mpr (hsame row hrow)
  · intro h
    have hlong : ∀ row ∈ rows, 3 ≤ row.length := fun row hrow => (h row hrow).1
    have heq : rows.filterMap (entered valid) = rows.filterMap (listed valid) :=
      List.filterMap_congr fun row hrow =>
        ((regular_iff (hlong row hrow)).mp (h row hrow)).symm
    refine ⟨rows.filterMap (entered valid), ?_, heq, fun slot => ?_⟩
    · unfold readSlotnames
      rw [foldlM_long [] hlong]
      rfl
    · rw [heq]
      exact firstFor_getSlotName rows slot

/-- A row of two fields makes `cb2()` call `regcomp()` with `NULL`. -/
theorem twoFields_fault : ¬∀ valid rows, Tolerates valid rows := by
  intro h
  obtain ⟨names, hread, -⟩ := h (fun _ => true) [[ascii "1", ascii "0"]]
  have hfault : readSlotnames (fun _ => true) [] [[ascii "1", ascii "0"]] =
      .error .nullPattern := by decide +kernel
  exact absurd (hfault.symm.trans hread) (by simp)

end Remsim.Bankd
