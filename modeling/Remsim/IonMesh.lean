import Remsim.Errno
import Remsim.JsonText
import Remsim.Scanf

/-! # The answers of IonMesh (`ionmesh_integration.c`)

`ionmesh_parse_assignment()` has no JSON parser: it looks for the text `"key":`, with a quote behind
it when the value is a string, and reads what follows.  The objects are those of `JsonText`.

`readAsJson_iff`: an answer is read like its compact form, and rightly, exactly when there is no
white space before the colons, and none behind them where the value is a string, of the members that
count, and the numbers are those of an `int`. -/

namespace Remsim.IonMesh

open CString Decimal JsonText Scanf

/-! ### The program -/

/-- `struct ionmesh_assignment`. -/
structure IonmeshAssignment where
  bankId : ℤ
  slotId : ℤ
  iccid : List UInt8
  imsi : List UInt8
  bankdHost : List UInt8
  bankdPort : ℤ
  mappingMode : List UInt8
deriving DecidableEq, Repr

/-- An assignment of which every octet is zero. -/
def IonmeshAssignment.zero : IonmeshAssignment := ⟨0, 0, [], [], [], 0, []⟩

/-- A number as an `int`: what is left of the `long` that it is converted to first. -/
def asInt (n : ℤ) : ℤ := (max (-2 ^ 63) (min n (2 ^ 63 - 1))).bmod (2 ^ 32)

/-- `sscanf(ptr + skip, "%d", &old)` behind a key, if there is one. -/
def readInt (key : List UInt8) (skip : ℕ) (json : List UInt8) (old : ℤ) : ℤ :=
  match strstr key json with
  | none => old
  | some ptr =>
      match sscanf [.dec] (ptr.drop skip) with
      | [.int n] => asInt n
      | _ => old

/-- `int len = end - ptr`, and what is copied to an array of some size. -/
def copied (size : ℕ) (s : List UInt8) : Option (List UInt8) :=
  let len := (s.length : ℤ).bmod (2 ^ 32)
  if 0 ≤ len ∧ len < size then some (s.take len.toNat) else none

/-- What is copied of the text between a key and the next quote. -/
def readString (key : List UInt8) (skip size : ℕ) (json : List UInt8) : Option (List UInt8) :=
  (strstr key json).bind fun ptr =>
    (strchr 34 (ptr.drop skip)).bind fun found => copied size found.1

/-- The host and the port in `temp`. -/
def splitEndpoint (temp : List UInt8) : List UInt8 × ℤ :=
  let hostStart := (strstr (ascii "://") temp).elim temp (·.drop 3)
  match strchr 58 hostStart with
  | some (host, port) => (host.take 255, atoi port)
  | none => (hostStart.take 255, 9999)

/-- `ionmesh_parse_assignment()`. -/
def ionmeshParseAssignment (json : List UInt8) (a : IonmeshAssignment) : ℤ × IonmeshAssignment :=
  if (strstr (ascii "\"status\":\"error\"") json).isSome then (-eio, a)
  else
    let a := { a with bankId := readInt (ascii "\"bank_id\":") 10 json a.bankId }
    let a := { a with slotId := readInt (ascii "\"slot_id\":") 10 json a.slotId }
    let a := { a with iccid := (readString (ascii "\"iccid\":\"") 9 32 json).getD a.iccid }
    let a := { a with imsi := (readString (ascii "\"imsi\":\"") 8 32 json).getD a.imsi }
    let endpoint := ((readString (ascii "\"bankd_endpoint\":\"") 18 256 json).map
      splitEndpoint).getD (a.bankdHost, a.bankdPort)
    let a := { a with bankdHost := endpoint.1, bankdPort := endpoint.2 }
    let a := { a with
      mappingMode := (readString (ascii "\"mapping_mode\":\"") 16 32 json).getD a.mappingMode }
    if a.bankId = 0 ∨ a.slotId = 0 ∨ a.bankdHost = [] ∨ a.bankdPort = 0 then
      (-einval, a)
    else (0, a)

/-! ### The answers -/

/-- `[scheme://]host[:port]`. -/
structure Endpoint where
  scheme : Option (List UInt8)
  host : List UInt8
  port : Option (List UInt8)
  scheme_colon : ∀ s ∈ scheme, 58 ∉ s
  host_colon : 58 ∉ host
  host_length : host.length ≤ 200
  port_number : ∀ p ∈ port, IsNumber p

namespace Endpoint

def text (e : Endpoint) : List UInt8 :=
  (e.scheme.elim [] (· ++ ascii "://")) ++ (e.host ++ e.port.elim [] (58 :: ·))

/-- The port, which is 9999 if there is none. -/
def portNumber (e : Endpoint) : ℕ := e.port.elim 9999 value

end Endpoint

/-- The integer of a member. -/
def intOf (items : List Item) (x : String) : ℤ :=
  ((member items (ascii x)).map (·.value.toInt)).getD 0

/-- The object has members of different names, and what is documented has the documented type.  It
may have other members, and lack some. -/
structure Documented (items : List Item) (ep : Option Endpoint) : Prop where
  wellFormed : ∀ it ∈ items, it.WellFormed
  names : (items.map Item.name).Nodup
  ints : ∀ x ∈ ["bank_id", "slot_id"], ∀ it ∈ member items (ascii x), it.value.isStr = false
  strs : ∀ x ∈ ["status", "iccid", "imsi", "bankd_endpoint", "mapping_mode"],
    ∀ it ∈ member items (ascii x), it.value.isStr = true
  endpoint : (member items (ascii "bankd_endpoint")).map (·.value) = ep.map fun e => .str e.text

/-- The status is an error. -/
def IsError (items : List Item) : Prop :=
  ∃ it ∈ member items (ascii "status"), it.value = .str (ascii "error")

/-- What an answer says to a client that has zeroed its assignment. -/
def answer (l r : List UInt8) (items : List Item) : ℤ × IonmeshAssignment :=
  ionmeshParseAssignment (objectText l r items) .zero

/-- The object is read as JSON: like its compact form, not at all when it says that there was an
error, and otherwise with the values that it has. -/
structure ReadAsJson (l r : List UInt8) (items : List Item) (ep : Option Endpoint) : Prop where
  same : answer l r items = answer [] [] (items.map Item.compact)
  failed : IsError items → (answer l r items).1 ≠ 0
  right : (answer l r items).1 = 0 →
    (answer l r items).2.bankId = intOf items "bank_id" ∧
    (answer l r items).2.slotId = intOf items "slot_id" ∧
    ∃ e ∈ ep, (answer l r items).2.bankdHost = e.host ∧
      (answer l r items).2.bankdPort = e.portNumber

/-! ### What has to be so -/

/-- No white space stands on either side of the colon. -/
def Tight (it : Item) : Prop := it.afterName = [] ∧ it.afterColon = []

/-- Something of a string is copied to an array of some size. -/
def Fits (size : ℕ) (s : List UInt8) : Prop :=
  0 < (s.length : ℤ).bmod (2 ^ 32) ∧ (s.length : ℤ).bmod (2 ^ 32) < size

/-- The range of an `int`. -/
def IsInt (n : ℤ) : Prop := -2 ^ 31 ≤ n ∧ n < 2 ^ 31

/-- What is kept of an endpoint.  One of 2 ^ 32 characters or more, whose length is not that `int`,
may be cut anywhere. -/
def Endpoint.kept (e : Endpoint) : List UInt8 × ℤ :=
  if e.text.length < 256 then (e.host, asInt e.portNumber)
  else if e.text.length < 2 ^ 32 then ([], 0)
  else ((copied 256 e.text).map splitEndpoint).getD ([], 0)

/-- The endpoint is kept as it is, if it is kept. -/
def Endpoint.Whole (e : Endpoint) : Prop :=
  if e.text.length < 2 ^ 32 then e.portNumber < 2 ^ 31 else e.kept = (e.host, ↑e.portNumber)

/-- The members have the spelling that is searched for, as far as they have an effect. -/
structure Spelled (items : List Item) (ep : Option Endpoint) : Prop where
  ints : ∀ x ∈ ["bank_id", "slot_id"], ∀ it ∈ member items (ascii x),
    it.afterName = [] ∨ asInt it.value.toInt = 0
  strs : ∀ x ∈ ["iccid", "imsi", "mapping_mode"], ∀ it ∈ member items (ascii x),
    Tight it ∨ ¬Fits 32 it.value.chars
  endpoint : ∀ it ∈ member items (ascii "bankd_endpoint"),
    Tight it ∨ ∀ e ∈ ep, e.kept = ([], 0)

/-- Nothing is missing in the object. -/
def Complete (items : List Item) (ep : Option Endpoint) : Prop :=
  asInt (intOf items "bank_id") ≠ 0 ∧ asInt (intOf items "slot_id") ≠ 0 ∧
    ∃ e ∈ ep, e.kept.1 ≠ [] ∧ e.kept.2 ≠ 0

/-- The numbers are those of an `int`. -/
def InRange (items : List Item) (ep : Option Endpoint) : Prop :=
  IsInt (intOf items "bank_id") ∧ IsInt (intOf items "slot_id") ∧ ∀ e ∈ ep, e.Whole

/-- An error is written without white space around its colon.  In an answer without an error the
members that count are spelled as they are searched for, and the numbers of a complete one are in
range. -/
def Understood (items : List Item) (ep : Option Endpoint) : Prop :=
  (IsError items → ∀ it ∈ member items (ascii "status"), Tight it) ∧
    (¬IsError items → Spelled items ep ∧ (Complete items ep → InRange items ep))

/-! ### One key -/

/-- What is read of a number. -/
def idOf (o : Option Item) : ℤ := (o.map fun it => asInt it.value.toInt).getD 0

/-- What is copied of a string. -/
def copiedOf (size : ℕ) (o : Option Item) : Option (List UInt8) :=
  o.bind fun it => copied size it.value.chars

section key

variable {items : List Item} {l r x : List UInt8}

theorem drop_key (x y s : List UInt8) :
    (34 :: (x ++ 34 :: (y ++ s))).drop (x.length + (y.length + 2)) = s := by
  have hsplit : 34 :: (x ++ 34 :: (y ++ s)) = (34 :: (x ++ 34 :: y)) ++ s := by
    simp only [List.cons_append, List.append_assoc]
  rw [hsplit]
  apply List.drop_left'
  simp only [List.length_cons, List.length_append]
  omega

theorem isDigit_of_isStop {c : UInt8} (h : isStop c = true) : isDigit c = false := by
  simp only [isStop, isWs, Bool.or_eq_true, decide_eq_true_eq] at h
  obtain (((((rfl | rfl) | rfl) | rfl) | rfl) | rfl) | rfl := h <;> decide

theorem scanDec_value {it : Item} (h : it.WellFormed) (hint : it.value.isStr = false)
    {s : List UInt8} (hs : Stops s) :
    scanDec (it.afterColon ++ (it.value.text ++ s)) = some (it.value.toInt, s) := by
  have hspace : ∀ c ∈ it.afterColon, isSpace c = true := by
    intro c hc
    have hws := h.afterColon c hc
    simp only [isWs, Bool.or_eq_true, decide_eq_true_eq] at hws
    obtain ((rfl | rfl) | rfl) | rfl := hws <;> decide
  rw [← scanDec_dropWhile, List.dropWhile_append_of_pos hspace, scanDec_dropWhile]
  obtain ⟨c, t, rfl, hc⟩ := hs
  cases hv : it.value with
  | str w =>
      rw [hv] at hint
      cases hint
  | int negative n =>
      cases negative with
      | false => exact scanDec_numeral n (isDigit_of_isStop hc) t
      | true => exact scanDec_minus n (isDigit_of_isStop hc) t

/-- An integer is read where its name and the colon stand together. -/
theorem readInt_object (hx : IsWord x) (h : ∀ it ∈ items, it.WellFormed)
    (hn : (items.map Item.name).Nodup) (hl : ∀ c ∈ l, isWs c = true)
    (hr : ∀ c ∈ r, isWs c = true) (hint : ∀ it ∈ member items x, it.value.isStr = false) :
    readInt (34 :: (x ++ [34, 58])) (x.length + 3) (objectText l r items) 0 =
      idOf ((member items x).filter Item.atName) := by
  obtain ⟨hmissed, hfound⟩ := strstr_member (y := [58]) hx ⟨[], rfl⟩
    (fun it hit => atName_follows hit) h hn hl hr
  unfold readInt
  cases ho : (member items x).filter Item.atName with
  | none =>
      rw [hmissed ho]
      rfl
  | some it =>
      obtain ⟨tail, htail, hstr⟩ := hfound it ho
      obtain ⟨hmem, hname⟩ := Option.filter_eq_some_iff.mp ho
      have hit := h it (name_of_member hmem).1
      have hrest : it.rest ++ tail =
          [58] ++ (it.afterColon ++ (it.value.text ++ (it.after ++ tail))) := by
        rw [Item.rest, of_decide_eq_true hname]
        simp only [List.nil_append, List.cons_append, List.append_assoc]
      have hscan := sscanf_dec (scanDec_value hit (hint it hmem) (Item.stops_after hit htail)) []
      have hdrop : (34 :: (x ++ 34 :: (it.rest ++ tail))).drop (x.length + 3) =
          it.afterColon ++ (it.value.text ++ (it.after ++ tail)) := by
        rw [hrest]
        exact drop_key x [58] _
      rw [hstr]
      simp only [hdrop, hscan]
      rfl

/-- A string is copied where its name, the colon and the first quote stand together. -/
theorem readString_object (hx : IsWord x) (h : ∀ it ∈ items, it.WellFormed)
    (hn : (items.map Item.name).Nodup) (hl : ∀ c ∈ l, isWs c = true)
    (hr : ∀ c ∈ r, isWs c = true) (size : ℕ) :
    readString (34 :: (x ++ [34, 58, 34])) (x.length + 4) size (objectText l r items) =
      copiedOf size ((member items x).filter Item.atString) := by
  obtain ⟨hmissed, hfound⟩ := strstr_member (y := [58, 34]) hx ⟨[34], rfl⟩
    (fun it hit => atString_follows hit) h hn hl hr
  unfold readString
  cases ho : (member items x).filter Item.atString with
  | none =>
      rw [hmissed ho]
      rfl
  | some it =>
      obtain ⟨tail, htail, hstr⟩ := hfound it ho
      obtain ⟨hmem, hstring⟩ := Option.filter_eq_some_iff.mp ho
      have hrest : it.rest ++ tail =
          [58, 34] ++ (it.value.chars ++ 34 :: (it.after ++ tail)) := by
        rw [rest_of_atString hstring]
        simp only [List.cons_append, List.append_assoc]
      have hdrop : (34 :: (x ++ 34 :: (it.rest ++ tail))).drop (x.length + 4) =
          it.value.chars ++ 34 :: (it.after ++ tail) := by
        rw [hrest]
        exact drop_key x [58, 34] _
      have hquote := quote_notMem_chars (h it (name_of_member hmem).1)
      rw [hstr, Option.bind_some, hdrop, strchr_append hquote, Option.bind_some, copiedOf,
        Option.bind_some]

end key

/-! ### All keys -/

/-- What an endpoint is read as. -/
def endpointOf (o : Option Item) : List UInt8 × ℤ :=
  ((copiedOf 256 o).map splitEndpoint).getD ([], 0)

/-- The assignment that is made of the members that are found. -/
def gathered (ints strs : String → Option Item) : IonmeshAssignment where
  bankId := idOf (ints "bank_id")
  slotId := idOf (ints "slot_id")
  iccid := (copiedOf 32 (strs "iccid")).getD []
  imsi := (copiedOf 32 (strs "imsi")).getD []
  bankdHost := (endpointOf (strs "bankd_endpoint")).1
  bankdPort := (endpointOf (strs "bankd_endpoint")).2
  mappingMode := (copiedOf 32 (strs "mapping_mode")).getD []

/-- What is returned with an assignment, unless an error is found. -/
def outcome (error : Option Item) (a : IonmeshAssignment) : ℤ × IonmeshAssignment :=
  if error.isSome then (-eio, .zero)
  else if a.bankId = 0 ∨ a.slotId = 0 ∨ a.bankdHost = [] ∨ a.bankdPort = 0 then
    (-einval, a)
  else (0, a)

section answers

variable {items : List Item} {ep : Option Endpoint} {l r : List UInt8}

theorem isWord_name : ∀ x ∈ ["bank_id", "slot_id", "status", "iccid", "imsi", "bankd_endpoint",
    "mapping_mode"], IsWord (ascii x) := by
  have hnames : ∀ x ∈ ["bank_id", "slot_id", "status", "iccid", "imsi", "bankd_endpoint",
      "mapping_mode"], 34 ∉ ascii x ∧ ((ascii x).head?.any fun c => !isStop c) = true := by
    decide +kernel
  exact fun x hx => isWord_of_head? (hnames x hx).1 (hnames x hx).2

theorem Documented.readInt_eq (h : Documented items ep) (hl : ∀ c ∈ l, isWs c = true)
    (hr : ∀ c ∈ r, isWs c = true) {x : String} (hx : x ∈ ["bank_id", "slot_id"])
    (key : List UInt8) (hkey : key = 34 :: (ascii x ++ [34, 58])) (skip : ℕ)
    (hskip : skip = (ascii x).length + 3) :
    readInt key skip (objectText l r items) 0 =
      idOf ((member items (ascii x)).filter Item.atName) := by
  have hword := isWord_name x (List.mem_append_left ["status", "iccid", "imsi",
    "bankd_endpoint", "mapping_mode"] hx)
  rw [hkey, hskip]
  exact readInt_object hword h.wellFormed h.names hl hr (h.ints x hx)

theorem Documented.readString_eq (h : Documented items ep) (hl : ∀ c ∈ l, isWs c = true)
    (hr : ∀ c ∈ r, isWs c = true) {x : String}
    (hx : x ∈ ["status", "iccid", "imsi", "bankd_endpoint", "mapping_mode"])
    (key : List UInt8) (hkey : key = 34 :: (ascii x ++ [34, 58, 34])) (skip : ℕ)
    (hskip : skip = (ascii x).length + 4) (size : ℕ) :
    readString key skip size (objectText l r items) =
      copiedOf size ((member items (ascii x)).filter Item.atString) := by
  have hword := isWord_name x (List.mem_append_right ["bank_id", "slot_id"] hx)
  rw [hkey, hskip]
  exact readString_object hword h.wellFormed h.names hl hr size

/-- The error is found where its three tokens stand together. -/
theorem Documented.strstr_error (h : Documented items ep) (hl : ∀ c ∈ l, isWs c = true)
    (hr : ∀ c ∈ r, isWs c = true) :
    (strstr (ascii "\"status\":\"error\"") (objectText l r items)).isSome =
      ((member items (ascii "status")).filter (Item.isString (ascii "error"))).isSome := by
  have hword := isWord_name "status" (by decide)
  have hkey : ascii "\"status\":\"error\"" =
      34 :: (ascii "status" ++ 34 :: 58 :: 34 :: (ascii "error" ++ [34])) := by decide +kernel
  obtain ⟨hmissed, hfound⟩ := strstr_member hword ⟨34 :: (ascii "error" ++ [34]), rfl⟩
    (fun it hit => isString_follows hit (by decide +kernel)) h.wellFormed h.names hl hr
  rw [hkey]
  cases ho : (member items (ascii "status")).filter (Item.isString (ascii "error")) with
  | none =>
      rw [hmissed ho]
      rfl
  | some it =>
      obtain ⟨tail, -, hstr⟩ := hfound it ho
      rw [hstr]
      rfl

theorem answer_eq (h : Documented items ep) (hl : ∀ c ∈ l, isWs c = true)
    (hr : ∀ c ∈ r, isWs c = true) :
    answer l r items =
      outcome ((member items (ascii "status")).filter (Item.isString (ascii "error")))
        (gathered (fun x => (member items (ascii x)).filter Item.atName)
          fun x => (member items (ascii x)).filter Item.atString) := by
  have hbank := h.readInt_eq hl hr (x := "bank_id") (by decide) (ascii "\"bank_id\":")
    (by decide +kernel) 10 (by decide +kernel)
  have hslot := h.readInt_eq hl hr (x := "slot_id") (by decide) (ascii "\"slot_id\":")
    (by decide +kernel) 10 (by decide +kernel)
  have hiccid := h.readString_eq hl hr (x := "iccid") (by decide) (ascii "\"iccid\":\"")
    (by decide +kernel) 9 (by decide +kernel) 32
  have himsi := h.readString_eq hl hr (x := "imsi") (by decide) (ascii "\"imsi\":\"")
    (by decide +kernel) 8 (by decide +kernel) 32
  have hendpoint := h.readString_eq hl hr (x := "bankd_endpoint") (by decide)
    (ascii "\"bankd_endpoint\":\"") (by decide +kernel) 18 (by decide +kernel) 256
  have hmode := h.readString_eq hl hr (x := "mapping_mode") (by decide)
    (ascii "\"mapping_mode\":\"") (by decide +kernel) 16 (by decide +kernel) 32
  unfold answer ionmeshParseAssignment outcome
  simp only [IonmeshAssignment.zero, h.strstr_error hl hr, hbank, hslot, hiccid, himsi, hendpoint,
    hmode]
  rfl

theorem Documented.compact (h : Documented items ep) :
    Documented (items.map Item.compact) ep where
  wellFormed := by
    intro it hit
    obtain ⟨it', hit', rfl⟩ := List.mem_map.mp hit
    exact (h.wellFormed it' hit').compact
  names := by
    rw [List.map_map]
    exact h.names
  ints := by
    intro x hx it hit
    rw [member_compact] at hit
    obtain ⟨it', hit', rfl⟩ := Option.mem_map.mp hit
    exact h.ints x hx it' hit'
  strs := by
    intro x hx it hit
    rw [member_compact] at hit
    obtain ⟨it', hit', rfl⟩ := Option.mem_map.mp hit
    exact h.strs x hx it' hit'
  endpoint := by
    rw [member_compact, Option.map_map]
    exact h.endpoint

/-- The member that tells of an error. -/
def errorOf (items : List Item) : Option Item :=
  (member items (ascii "status")).filter (·.value = .str (ascii "error"))

theorem errorOf_isSome : (errorOf items).isSome ↔ IsError items := by
  rw [Option.isSome_iff_exists]
  refine exists_congr fun it => ?_
  rw [errorOf, Option.filter_eq_some_iff, decide_eq_true_eq]
  rfl

theorem idOf_compact (x : List UInt8) :
    idOf ((member (items.map Item.compact) x).filter Item.atName) = idOf (member items x) := by
  rw [member_compact]
  cases member items x with
  | none => rfl
  | some it => rfl

theorem Documented.copiedOf_compact (h : Documented items ep) {x : String}
    (hx : x ∈ ["status", "iccid", "imsi", "bankd_endpoint", "mapping_mode"]) (size : ℕ) :
    copiedOf size ((member (items.map Item.compact) (ascii x)).filter Item.atString) =
      copiedOf size (member items (ascii x)) := by
  rw [member_compact]
  cases ho : member items (ascii x) with
  | none => rfl
  | some it =>
      have htight : it.compact.atString = true := h.strs x hx it ho
      rw [Option.map_some, Option.filter_some, if_pos htight]
      rfl

theorem Documented.error_compact (h : Documented items ep) :
    ((member (items.map Item.compact) (ascii "status")).filter
      (Item.isString (ascii "error"))).isSome = (errorOf items).isSome := by
  rw [member_compact, errorOf]
  cases ho : member items (ascii "status") with
  | none => rfl
  | some it =>
      have htight : it.compact.atString = true := h.strs "status" (by decide) it ho
      have hstring : it.compact.isString (ascii "error") =
          decide (it.value = .str (ascii "error")) := by
        rw [Item.isString, htight, Bool.true_and]
        rfl
      rw [Option.map_some, Option.filter_some, Option.filter_some, hstring]
      split_ifs
      · rfl
      · rfl

theorem answer_compact (h : Documented items ep) :
    answer [] [] (items.map Item.compact) = outcome (errorOf items)
      (gathered (fun x => member items (ascii x)) fun x => member items (ascii x)) := by
  rw [answer_eq h.compact (List.forall_mem_nil _) (List.forall_mem_nil _), outcome, outcome,
    h.error_compact]
  simp only [gathered, endpointOf, idOf_compact, h.copiedOf_compact (x := "iccid") (by decide),
    h.copiedOf_compact (x := "imsi") (by decide),
    h.copiedOf_compact (x := "bankd_endpoint") (by decide),
    h.copiedOf_compact (x := "mapping_mode") (by decide)]
  rfl

end answers

/-! ### Numbers and endpoints -/

section endpoints

theorem asInt_eq_iff (n : ℤ) : asInt n = n ↔ IsInt n := by
  unfold asInt IsInt
  constructor
  · intro h
    have hlow : -2 ^ 31 ≤ (max (-2 ^ 63) (min n (2 ^ 63 - 1))).bmod (2 ^ 32) :=
      le_of_eq_of_le (by norm_num) (Int.le_bmod (by norm_num))
    have hhigh : (max (-2 ^ 63) (min n (2 ^ 63 - 1))).bmod (2 ^ 32) < 2 ^ 31 :=
      lt_of_lt_of_eq (Int.bmod_lt (by norm_num)) (by norm_num)
    rw [h] at hlow hhigh
    exact ⟨hlow, hhigh⟩
  · rintro ⟨hlow, hhigh⟩
    rw [min_eq_left (by omega), max_eq_right (by omega)]
    exact Int.bmod_eq_of_le (by omega) (by omega)

theorem atoi_eq_asInt {s : List UInt8} (h : IsNumber s) : atoi s = asInt (value s) := by
  rw [atoi, strtol_of_isNumber h, asInt, max_eq_right (by omega)]

theorem copied_of_lt {size : ℕ} {s : List UInt8} (h : s.length < size) (hsize : size ≤ 2 ^ 31) :
    copied size s = some s := by
  have hlen : (s.length : ℤ).bmod (2 ^ 32) = s.length := Int.bmod_eq_of_le (by omega) (by omega)
  have hin : 0 ≤ (s.length : ℤ) ∧ (s.length : ℤ) < size := by omega
  unfold copied
  simp only [hlen, if_pos hin, Int.toNat_natCast, List.take_length]

theorem copied_of_le {size : ℕ} {s : List UInt8} (h : size ≤ s.length) (hlt : s.length < 2 ^ 32) :
    copied size s = none := by
  have hout : ¬(0 ≤ (s.length : ℤ).bmod (2 ^ 32) ∧ (s.length : ℤ).bmod (2 ^ 32) < size) := by
    rw [Int.bmod_def]
    split_ifs <;> omega
  unfold copied
  exact if_neg hout

theorem copied_getD_eq_nil_iff (size : ℕ) (s : List UInt8) :
    (copied size s).getD [] = [] ↔ ¬Fits size s := by
  have hnil : s = [] → (s.length : ℤ).bmod (2 ^ 32) = 0 := by
    rintro rfl
    rfl
  unfold copied Fits
  simp only
  split_ifs with h
  · rw [Option.getD_some, List.take_eq_nil_iff]
    constructor
    · rintro (hzero | hs)
      · omega
      · rw [hnil hs]
        omega
    · intro hlen
      exact .inl (by omega)
  · exact iff_of_true rfl (by omega)

variable (e : Endpoint)

theorem Endpoint.strstr_text : (strstr (ascii "://") e.text).elim e.text (·.drop 3) =
    e.host ++ e.port.elim [] (58 :: ·) := by
  have hsep : ascii "://" = 58 :: [47, 47] := by decide +kernel
  unfold Endpoint.text
  cases hscheme : e.scheme with
  | some s =>
      have hskip : 58 ∉ s := e.scheme_colon s hscheme
      rw [Option.elim_some, List.append_assoc, hsep, strstr_skip hskip,
        List.cons_append, strstr_here ⟨_, rfl⟩]
      rfl
  | none =>
      rw [Option.elim_none, List.nil_append, hsep, strstr_skip e.host_colon]
      cases hport : e.port with
      | none => rfl
      | some p =>
          obtain ⟨hne, hall⟩ := e.port_number p hport
          have hcolon : 58 ∉ p := fun hmem => absurd (hall 58 hmem) (by decide)
          have hdigit : ¬58 :: [47, 47] <+: 58 :: p := by
            obtain ⟨d, t, rfl⟩ := List.exists_cons_of_ne_nil hne
            rw [List.cons_prefix_cons, List.cons_prefix_cons]
            rintro ⟨-, rfl, -⟩
            exact absurd (hall 47 List.mem_cons_self) (by decide)
          have hrest : strstr (58 :: [47, 47]) (p ++ []) = none := by
            rw [strstr_skip hcolon]
            rfl
          rw [List.append_nil] at hrest
          rw [Option.elim_some, strstr_next hdigit, hrest]
          rfl

theorem Endpoint.splitEndpoint_text : splitEndpoint e.text = (e.host, asInt e.portNumber) := by
  have htake : e.host.take 255 = e.host := List.take_of_length_le (e.host_length.trans (by omega))
  unfold splitEndpoint portNumber
  rw [e.strstr_text]
  cases hport : e.port with
  | some p =>
      simp only [Option.elim_some, strchr_append e.host_colon, htake,
        atoi_eq_asInt (e.port_number p hport)]
  | none =>
      have hnone : strchr 58 e.host = none := if_neg e.host_colon
      simp only [Option.elim_none, List.append_nil, hnone, htake]
      rfl

theorem Endpoint.kept_eq : ((copied 256 e.text).map splitEndpoint).getD ([], 0) = e.kept := by
  unfold Endpoint.kept
  split_ifs with hshort hlong
  · rw [copied_of_lt hshort (by omega), Option.map_some, Option.getD_some, e.splitEndpoint_text]
  · rw [copied_of_le (by omega) hlong, Option.map_none, Option.getD_none]
  · rfl

theorem Endpoint.kept_eq_iff (h : e.kept.1 ≠ []) :
    e.kept = (e.host, ↑e.portNumber) ↔ e.Whole := by
  unfold Endpoint.Whole
  split_ifs with hlong
  · have hshort : e.text.length < 256 := by
      by_contra hge
      rw [Endpoint.kept, if_neg hge, if_pos hlong] at h
      exact h rfl
    rw [Endpoint.kept, if_pos hshort, Prod.mk.injEq, eq_self_iff_true, true_and, asInt_eq_iff,
      IsInt]
    omega
  · rfl

end endpoints

/-! ### Read as JSON -/

section main

variable {items : List Item} {ep : Option Endpoint} {l r : List UInt8}

theorem filter_effect_iff {β : Type} (effect : Option Item → β) (q : Item → Bool)
    (o : Option Item) :
    effect (o.filter q) = effect o ↔ ∀ it ∈ o, q it = true ∨ effect (some it) = effect none := by
  cases o with
  | none => exact iff_of_true rfl fun it hit => by cases hit
  | some it =>
      rw [Option.filter_some]
      split_ifs with hq
      · exact iff_of_true rfl fun it' hit => .inl (Option.some.inj hit ▸ hq)
      · constructor
        · intro heq it' hit
          rw [← Option.some.inj hit]
          exact .inr heq.symm
        · exact fun h => ((h it rfl).resolve_left hq).symm

theorem atString_iff {it : Item} (h : it.value.isStr = true) : it.atString = true ↔ Tight it := by
  rw [Item.atString, Item.atName, h, Bool.and_true, Bool.and_eq_true, decide_eq_true_eq,
    decide_eq_true_eq]
  rfl

theorem idOf_member (x : String) : idOf (member items (ascii x)) = asInt (intOf items x) := by
  unfold idOf intOf
  cases member items (ascii x) with
  | none => rfl
  | some it => rfl

theorem Documented.endpointOf_some (h : Documented items ep) {it : Item}
    (hit : it ∈ member items (ascii "bankd_endpoint")) :
    ∃ e ∈ ep, endpointOf (some it) = e.kept := by
  have hendpoint := h.endpoint
  rw [hit, Option.map_some] at hendpoint
  cases ep with
  | none => cases hendpoint
  | some e =>
      have hchars : it.value.chars = e.text := by
        rw [Option.some.inj hendpoint]
        rfl
      refine ⟨e, rfl, ?_⟩
      rw [endpointOf, copiedOf, Option.bind_some, hchars, e.kept_eq]

theorem Documented.endpointOf_member (h : Documented items ep) :
    endpointOf (member items (ascii "bankd_endpoint")) =
      (ep.map Endpoint.kept).getD ([], 0) := by
  cases hm : member items (ascii "bankd_endpoint") with
  | none =>
      have hendpoint := h.endpoint
      rw [hm, Option.map_none] at hendpoint
      rw [Option.map_eq_none_iff.mp hendpoint.symm]
      rfl
  | some it =>
      obtain ⟨e, rfl, hkept⟩ := h.endpointOf_some hm
      exact hkept

theorem idOf_filter_iff (x : String) :
    idOf ((member items (ascii x)).filter Item.atName) = idOf (member items (ascii x)) ↔
      ∀ it ∈ member items (ascii x), it.afterName = [] ∨ asInt it.value.toInt = 0 := by
  rw [filter_effect_iff idOf]
  refine forall₂_congr fun it _ => or_congr ?_ Iff.rfl
  rw [Item.atName, decide_eq_true_eq]

theorem Documented.copiedOf_filter_iff (h : Documented items ep) {x : String}
    (hx : x ∈ ["status", "iccid", "imsi", "bankd_endpoint", "mapping_mode"]) (size : ℕ) :
    (copiedOf size ((member items (ascii x)).filter Item.atString)).getD [] =
      (copiedOf size (member items (ascii x))).getD [] ↔
    ∀ it ∈ member items (ascii x), Tight it ∨ ¬Fits size it.value.chars := by
  rw [filter_effect_iff fun o => (copiedOf size o).getD []]
  refine forall₂_congr fun it hit => or_congr (atString_iff (h.strs x hx it hit)) ?_
  rw [copiedOf, Option.bind_some, copiedOf, Option.bind_none, Option.getD_none]
  exact copied_getD_eq_nil_iff size it.value.chars

theorem Documented.endpointOf_filter_iff (h : Documented items ep) :
    endpointOf ((member items (ascii "bankd_endpoint")).filter Item.atString) =
      endpointOf (member items (ascii "bankd_endpoint")) ↔
    ∀ it ∈ member items (ascii "bankd_endpoint"), Tight it ∨ ∀ e ∈ ep, e.kept = ([], 0) := by
  rw [filter_effect_iff endpointOf]
  refine forall₂_congr fun it hit =>
    or_congr (atString_iff (h.strs "bankd_endpoint" (by decide) it hit)) ?_
  obtain ⟨e, rfl, hkept⟩ := h.endpointOf_some hit
  rw [hkept]
  constructor
  · rintro heq _ ⟨⟩
    exact heq
  · exact fun hall => hall e rfl

/-- The same is found as in the compact form. -/
theorem gathered_eq_iff (h : Documented items ep) :
    gathered (fun x => (member items (ascii x)).filter Item.atName)
        (fun x => (member items (ascii x)).filter Item.atString) =
      gathered (fun x => member items (ascii x)) (fun x => member items (ascii x)) ↔
    Spelled items ep := by
  rw [gathered, gathered, IonmeshAssignment.mk.injEq, idOf_filter_iff, idOf_filter_iff,
    h.copiedOf_filter_iff (x := "iccid") (by decide),
    h.copiedOf_filter_iff (x := "imsi") (by decide),
    h.copiedOf_filter_iff (x := "mapping_mode") (by decide)]
  constructor
  · rintro ⟨hbank, hslot, hiccid, himsi, hhost, hport, hmode⟩
    refine ⟨?_, ?_, h.endpointOf_filter_iff.mp (Prod.ext hhost hport)⟩
    · exact List.forall_mem_cons.mpr ⟨hbank, List.forall_mem_singleton.mpr hslot⟩
    · exact List.forall_mem_cons.mpr ⟨hiccid,
        List.forall_mem_cons.mpr ⟨himsi, List.forall_mem_singleton.mpr hmode⟩⟩
  · intro hspelled
    have hep := h.endpointOf_filter_iff.mpr hspelled.endpoint
    exact ⟨hspelled.ints "bank_id" (by decide), hspelled.ints "slot_id" (by decide),
      hspelled.strs "iccid" (by decide), hspelled.strs "imsi" (by decide),
      congrArg Prod.fst hep, congrArg Prod.snd hep, hspelled.strs "mapping_mode" (by decide)⟩

theorem found_error_iff (h : Documented items ep) :
    ((member items (ascii "status")).filter (Item.isString (ascii "error"))).isSome ↔
      IsError items ∧ ∀ it ∈ member items (ascii "status"), Tight it := by
  cases hm : member items (ascii "status") with
  | none =>
      refine iff_of_false (fun hsome => by cases hsome) fun herror => ?_
      obtain ⟨it, hit, -⟩ := herror.1
      rw [hm] at hit
      cases hit
  | some it =>
      have htight := atString_iff (h.strs "status" (by decide) it hm)
      rw [Option.filter_some, Item.isString]
      constructor
      · intro hsome
        split_ifs at hsome with hstring
        · rw [Bool.and_eq_true, decide_eq_true_eq] at hstring
          refine ⟨⟨it, hm, hstring.2⟩, ?_⟩
          rintro _ ⟨⟩
          exact htight.mp hstring.1
        · cases hsome
      · rintro ⟨⟨it', hit', hvalue⟩, hall⟩
        rw [hm] at hit'
        cases hit'
        rw [htight.mpr (hall it rfl), hvalue]
        rfl

theorem outcome_of_isSome {error : Option Item} (h : error.isSome) (a : IonmeshAssignment) :
    outcome error a = (-eio, .zero) := if_pos h

theorem outcome_of_not_isSome {error : Option Item} (h : ¬error.isSome) (a : IonmeshAssignment) :
    (outcome error a).1 ≠ -eio ∧ (outcome error a).2 = a ∧
      ((outcome error a).1 = 0 ↔
        a.bankId ≠ 0 ∧ a.slotId ≠ 0 ∧ a.bankdHost ≠ [] ∧ a.bankdPort ≠ 0) := by
  unfold outcome
  rw [if_neg h]
  split_ifs with hmissing
  · have heio : -einval ≠ -eio := by decide
    have hzero : -einval ≠ 0 := by decide
    refine ⟨heio, rfl, iff_of_false hzero ?_⟩
    rintro ⟨hbank, hslot, hhost, hport⟩
    obtain hzero | hzero | hzero | hzero := hmissing
    · exact hbank hzero
    · exact hslot hzero
    · exact hhost hzero
    · exact hport hzero
  · simp only [not_or] at hmissing
    have heio : 0 ≠ -eio := by decide
    exact ⟨heio, rfl, iff_of_true rfl hmissing⟩

/-- What an object without an error has to have. -/
theorem complete_iff (h : Documented items ep) {a : IonmeshAssignment}
    (ha : a = gathered (fun x => member items (ascii x)) fun x => member items (ascii x)) :
    a.bankId ≠ 0 ∧ a.slotId ≠ 0 ∧ a.bankdHost ≠ [] ∧ a.bankdPort ≠ 0 ↔ Complete items ep := by
  rw [ha, gathered]
  simp only [idOf_member, h.endpointOf_member, Complete]
  refine and_congr_right fun _ => and_congr_right fun _ => ?_
  cases ep with
  | none =>
      refine iff_of_false (fun hne => hne.1 rfl) ?_
      rintro ⟨e, ⟨⟩, -⟩
  | some e =>
      constructor
      · exact fun hne => ⟨e, rfl, hne⟩
      · rintro ⟨_, ⟨⟩, hne⟩
        exact hne

theorem inRange_iff (h : Documented items ep) (hc : Complete items ep) {a : IonmeshAssignment}
    (ha : a = gathered (fun x => member items (ascii x)) fun x => member items (ascii x)) :
    (a.bankId = intOf items "bank_id" ∧ a.slotId = intOf items "slot_id" ∧
      ∃ e ∈ ep, a.bankdHost = e.host ∧ a.bankdPort = e.portNumber) ↔ InRange items ep := by
  rw [ha, gathered]
  simp only [idOf_member, h.endpointOf_member, InRange, asInt_eq_iff]
  obtain ⟨-, -, e, rfl, hhost, -⟩ := hc
  refine and_congr_right fun _ => and_congr_right fun _ => ?_
  have hwhole := e.kept_eq_iff hhost
  rw [Prod.ext_iff] at hwhole
  constructor
  · rintro ⟨_, ⟨⟩, hsame⟩ _ ⟨⟩
    exact hwhole.mp hsame
  · exact fun hall => ⟨e, rfl, hwhole.mpr (hall e rfl)⟩

/-- An error is found exactly when it is written without white space. -/
theorem readAsJson_of_error (h : Documented items ep) (hl : ∀ c ∈ l, isWs c = true)
    (hr : ∀ c ∈ r, isWs c = true) (herror : IsError items) :
    ReadAsJson l r items ep ↔ ∀ it ∈ member items (ascii "status"), Tight it := by
  have hanswer := answer_eq h hl hr
  have hcompact := answer_compact h
  have hfound := found_error_iff h
  rw [outcome_of_isSome (errorOf_isSome.mpr herror)] at hcompact
  constructor
  · -- the compact form is refused as an error, which an answer without one never is
    intro hread
    by_contra htight
    have hmissed := outcome_of_not_isSome fun hsome => htight (hfound.mp hsome).2
    have hsame := hread.same
    rw [hanswer, hcompact] at hsame
    exact (hmissed _).1 (congrArg Prod.fst hsame)
  · intro htight
    rw [outcome_of_isSome (hfound.mpr ⟨herror, htight⟩)] at hanswer
    refine ⟨hanswer.trans hcompact.symm, fun _ => ?_, fun hzero => ?_⟩
    · rw [hanswer]
      decide
    · rw [hanswer] at hzero
      exact absurd hzero (by decide)

/-- Without an error the answers are the same when the same is found. -/
theorem same_iff (h : Documented items ep) (hl : ∀ c ∈ l, isWs c = true)
    (hr : ∀ c ∈ r, isWs c = true) (hno : ¬IsError items) :
    answer l r items = answer [] [] (items.map Item.compact) ↔ Spelled items ep := by
  have hfound : ¬((member items (ascii "status")).filter (Item.isString (ascii "error"))).isSome :=
    fun hsome => hno ((found_error_iff h).mp hsome).1
  have herror : ¬(errorOf items).isSome := fun hsome => hno (errorOf_isSome.mp hsome)
  rw [← gathered_eq_iff h, answer_eq h hl hr, answer_compact h]
  constructor
  · intro heq
    have hsnd := congrArg Prod.snd heq
    rw [(outcome_of_not_isSome hfound _).2.1, (outcome_of_not_isSome herror _).2.1] at hsnd
    exact hsnd
  · intro heq
    rw [heq, outcome, outcome, if_neg hfound, if_neg herror]

/-- **An answer is read as JSON exactly when it is spelled as it is searched for**, in the members
that have an effect, and its numbers are in the range of an `int`. -/
theorem readAsJson_iff (h : Documented items ep) (hl : ∀ c ∈ l, isWs c = true)
    (hr : ∀ c ∈ r, isWs c = true) : ReadAsJson l r items ep ↔ Understood items ep := by
  by_cases herror : IsError items
  · rw [readAsJson_of_error h hl hr herror, Understood]
    exact ⟨fun htight => ⟨fun _ => htight, fun hno => absurd herror hno⟩, fun hall => hall.1 herror⟩
  · have hsame := same_iff h hl hr herror
    have hanswer := answer_eq h hl hr
    have hnone := outcome_of_not_isSome fun hsome => herror ((found_error_iff h).mp hsome).1
    constructor
    · intro hread
      have hspelled := hsame.mp hread.same
      refine ⟨fun hyes => absurd hyes herror, fun _ => ⟨hspelled, fun hcomplete => ?_⟩⟩
      have hg := (gathered_eq_iff h).mpr hspelled
      have hright := hread.right
      rw [hanswer, (hnone _).2.1, (hnone _).2.2, complete_iff h hg] at hright
      exact (inRange_iff h hcomplete hg).mp (hright hcomplete)
    · rintro ⟨-, hall⟩
      obtain ⟨hspelled, hrange⟩ := hall herror
      have hg := (gathered_eq_iff h).mpr hspelled
      refine ⟨hsame.mpr hspelled, fun hyes => absurd hyes herror, fun hzero => ?_⟩
      rw [hanswer, (hnone _).2.2, complete_iff h hg] at hzero
      rw [hanswer, (hnone _).2.1]
      exact (inRange_iff h hzero hg).mpr (hrange hzero)

end main

/-! ### The answer of the documentation -/

/-- Its endpoint. -/
def bankd : Endpoint where
  scheme := some (ascii "http")
  host := ascii "bankd1.example.com"
  port := some (ascii "9999")
  scheme_colon := by decide +kernel
  host_colon := by decide +kernel
  host_length := by decide +kernel
  port_number := by
    rintro _ ⟨⟩
    exact ⟨by decide +kernel, by decide +kernel⟩

/-- Its members. -/
def members : List (String × Value) :=
  [("status", .str (ascii "ok")), ("bank_id", .int false 1), ("slot_id", .int false 42),
    ("iccid", .str (ascii "89014103211234567890")), ("imsi", .str (ascii "310410123456789")),
    ("bankd_endpoint", .str (ascii "http://bankd1.example.com:9999")),
    ("mapping_mode", .str (ascii "ONE_TO_ONE_SWSIM")),
    ("profile_id", .str (ascii "uuid-of-service-profile"))]

/-- The object, a line for each member, with some white space behind the colons. -/
def sample (colon : List UInt8) : List Item :=
  members.map fun x => ⟨ascii x.1, x.2, [10, 32, 32], [], colon, []⟩

theorem sample_documented {colon : List UInt8} (h : ∀ c ∈ colon, isWs c = true) :
    Documented (sample colon) (some bankd) := by
  have hmember : ∀ {x : String} {it : Item}, it ∈ member (sample colon) (ascii x) →
      ∃ p ∈ members, ascii p.1 = ascii x ∧ it.value = p.2 := by
    intro x it hit
    obtain ⟨hmem, hname⟩ := name_of_member hit
    obtain ⟨p, hp, rfl⟩ := List.mem_map.mp hmem
    exact ⟨p, hp, hname, rfl⟩
  constructor
  · intro it hit
    obtain ⟨p, hp, rfl⟩ := List.mem_map.mp hit
    have hplain : ∀ p ∈ members, (ascii p.1).all isPlain = true ∧ p.2.chars.all isPlain = true := by
      decide +kernel
    have hbefore : ∀ c ∈ [10, 32, 32], isWs c = true := by decide +kernel
    exact ⟨List.all_eq_true.mp (hplain p hp).1,
      (Value.plain_iff p.2).mpr (List.all_eq_true.mp (hplain p hp).2), hbefore,
      List.forall_mem_nil _, h, List.forall_mem_nil _⟩
  · rw [sample, List.map_map]
    have hnames : (members.map fun p => ascii p.1).Nodup := by decide +kernel
    exact hnames
  · intro x hx it hit
    obtain ⟨p, hp, hname, hvalue⟩ := hmember hit
    have hints : ∀ x ∈ ["bank_id", "slot_id"], ∀ p ∈ members, ascii p.1 = ascii x →
        p.2.isStr = false := by decide +kernel
    rw [hvalue]
    exact hints x hx p hp hname
  · intro x hx it hit
    obtain ⟨p, hp, hname, hvalue⟩ := hmember hit
    have hstrs : ∀ x ∈ ["status", "iccid", "imsi", "bankd_endpoint", "mapping_mode"],
        ∀ p ∈ members, ascii p.1 = ascii x → p.2.isStr = true := by decide +kernel
    rw [hvalue]
    exact hstrs x hx p hp hname
  · have hfind : (members.find? fun p => decide (ascii p.1 = ascii "bankd_endpoint")).map Prod.snd =
        some (.str bankd.text) := by decide +kernel
    rw [member, sample, List.find?_map, Option.map_map]
    exact hfind

/-- White space behind the colons, as it stands in the documentation. -/
theorem sample_misread : Documented (sample [32]) (some bankd) ∧
    answer [] [] (sample [32]) = (-22, ⟨1, 42, [], [], [], 0, []⟩) ∧
    ¬ReadAsJson [] [] (sample [32]) (some bankd) := by
  have hanswer : answer [] [] (sample [32]) = (-22, ⟨1, 42, [], [], [], 0, []⟩) := by
    decide +kernel
  refine ⟨sample_documented (by decide +kernel), hanswer, fun h => ?_⟩
  have hsame := h.same
  rw [hanswer] at hsame
  exact absurd hsame (by decide +kernel)

/-- Without it the answer is read, over several lines as it may be. -/
theorem sample_read : ReadAsJson [32] [10] (sample []) (some bankd) := by
  have hmember : ∀ x, ∀ it ∈ member (sample []) x, Tight it := by
    intro x it hit
    obtain ⟨p, hp, rfl⟩ := List.mem_map.mp (name_of_member hit).1
    exact ⟨rfl, rfl⟩
  refine (readAsJson_iff (sample_documented (List.forall_mem_nil _)) (by decide +kernel)
    (by decide +kernel)).mpr ⟨fun _ => hmember _, fun _ => ⟨⟨?_, ?_, ?_⟩, fun _ => ⟨?_, ?_, ?_⟩⟩⟩
  · exact fun x _ it hit => .inl (hmember _ it hit).1
  · exact fun x _ it hit => .inl (hmember _ it hit)
  · exact fun it hit => .inl (hmember _ it hit)
  · have hbank : intOf (sample []) "bank_id" = 1 := by decide +kernel
    rw [IsInt, hbank]
    omega
  · have hslot : intOf (sample []) "slot_id" = 42 := by decide +kernel
    rw [IsInt, hslot]
    omega
  · rintro _ ⟨⟩
    have hlength : bankd.text.length < 2 ^ 32 := by decide +kernel
    have hport : bankd.portNumber = 9999 := by decide +kernel
    rw [Endpoint.Whole, if_pos hlength, hport]
    omega

end Remsim.IonMesh
