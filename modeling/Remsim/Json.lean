import Mathlib

/-! # JSON values

A JSON document as a program holds it in memory: objects are lists of members in which the first
member of a name counts, integers have 64 bits, and a number with a fraction or an exponent is kept
as the bits of a double, since nothing here computes with it.
-/

/-- A JSON value. -/
inductive Json where
  | null
  | bool (b : Bool)
  | integer (n : Int64)
  | real (bits : UInt64)
  | string (s : String)
  | array (xs : List Json)
  | object (members : List (String × Json))

namespace Json

/-- The value is an object. -/
def isObject : Json → Bool
  | object _ => true
  | _ => false

/-- The value is an integer. -/
def isInteger : Json → Bool
  | integer _ => true
  | _ => false

/-- The number; zero for anything but an integer. -/
def integerValue : Json → Int64
  | integer n => n
  | _ => 0

/-- The member of the given name; nothing is a member of anything but an object. -/
def get (j : Json) (key : String) : Option Json :=
  match j with
  | object members => members.lookup key
  | _ => none

/-- The object with the member of the given name set or added. -/
def set (j : Json) (key : String) (value : Json) : Json :=
  match j with
  | object members => object (members.filter (fun m => m.1 ≠ key) ++ [(key, value)])
  | j => j

@[simp] theorem isObject_set (j : Json) (key : String) (value : Json) :
    (j.set key value).isObject = j.isObject := by
  cases j <;> rfl

theorem lookup_filter_self (key : String) (xs : List (String × Json)) :
    (xs.filter fun m => m.1 ≠ key).lookup key = none := by
  rw [List.lookup_eq_none_iff]
  intro m hm
  have hne := of_decide_eq_true (List.mem_filter.mp hm).2
  exact bne_iff_ne.mpr hne.symm

@[simp] theorem get_set_self {j : Json} (hj : j.isObject = true) (key : String) (value : Json) :
    (j.set key value).get key = some value := by
  cases j with
  | object members =>
      show (members.filter _ ++ [(key, value)]).lookup key = _
      rw [List.lookup_append, lookup_filter_self, Option.none_or, List.lookup_cons, beq_self_eq_true]
  | _ => cases hj

theorem isInteger_iff {j : Json} : j.isInteger = true ↔ ∃ n, j = integer n := by
  cases j <;> simp [isInteger]

end Json
