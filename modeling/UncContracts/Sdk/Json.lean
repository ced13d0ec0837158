import Mathlib.Data.Int.Notation
import Mathlib.Data.Nat.Notation

/-!
# JSON values

The JSON values of the host's library. An object lists its fields in the order in which the
library enumerates them.

## Main definitions

* `Json`: the values
* `Json.objectKeys`: the keys of an object, at any depth, that lead to an object
-/

namespace UncContracts

/-- A JSON value. A number is a decimal fraction. -/
inductive Json
  | null
  | bool (b : Bool)
  | number (mantissa : ℤ) (exponent : ℕ)
  | string (s : String)
  | array (elements : List Json)
  | object (fields : List (String × Json))
  deriving Repr

namespace Json

/-- `is_string`. -/
def isString : Json → Bool
  | string _ => true
  | _ => false

/-- `is_null`. -/
def isNull : Json → Bool
  | null => true
  | _ => false

/-- `as_object`. -/
def asObject : Json → Option (List (String × Json))
  | object fields => some fields
  | _ => none

/-- `is_object`. -/
def isObject : Json → Bool
  | object _ => true
  | _ => false

theorem asObject_eq_some {value : Json} {fields : List (String × Json)} :
    value.asObject = some fields ↔ value = .object fields := by
  cases value <;> simp [asObject]

/-- A value is an object, or a leaf of one. -/
theorem exists_object_or_leaf (value : Json) :
    (∃ fields, value = .object fields) ∨ value.isObject = false := by
  cases value with
  | object fields => exact .inl ⟨fields, rfl⟩
  | null | bool b | number m e | string s | array elements => exact .inr rfl

mutual

/-- The keys, at any depth, that lead to an object. -/
def objectKeys : Json → List String
  | object fields => objectKeysOf fields
  | _ => []

/-- The keys among fields, at any depth, that lead to an object. -/
def objectKeysOf : List (String × Json) → List String
  | [] => []
  | (key, value) :: fields =>
    (if value.isObject then [key] else []) ++ (objectKeys value ++ objectKeysOf fields)

end

end Json

end UncContracts
