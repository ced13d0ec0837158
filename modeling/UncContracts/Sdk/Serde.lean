import Mathlib.Algebra.Order.Ring.Nat
import Mathlib.Data.List.Basic
import UncContracts.Sdk.Json

/-!
# Data as JSON values

How the host's library represents lists, structures and the variants of an enumeration as JSON
values, and how it reads them. A variant is represented with its tag outside its content, or
without a tag.

## Main definitions

* `Json.decodeNat`, `Json.decodeList`, `Json.decodeFields`: reading numbers, lists and structures
* `Json.externallyTagged`, `Json.decodeTagged`: variants with their tags

## Main results

* `Json.decodeList_map`: a list is read back if its elements are
* `Json.decodeTagged_externallyTagged`: a variant is read by its own reader
* `Json.decodeTagged_of_notMem`: without one of the tags nothing is read
-/

namespace UncContracts.Json

variable {α β : Type}

/-- An unsigned integer up to a maximum. -/
def decodeNat (max : ℕ) : Json → Option ℕ
  | number (.ofNat n) 0 => if n ≤ max then some n else none
  | _ => none

/-- A string, by a parser of its text. -/
def decodeString (parse : String → Option α) : Json → Option α
  | string s => parse s
  | _ => none

/-- A list, by a reader of its elements. -/
def decodeList (decode : Json → Option α) : Json → Option (List α)
  | array elements => elements.mapM decode
  | _ => none

/-- The value of a field, which must be there exactly once. Other fields are ignored. -/
def field (fields : List (String × Json)) (name : String) : Option Json :=
  match fields.filter fun f => f.1 = name with
  | [(_, value)] => some value
  | _ => none

/-- The values of the fields of a structure, from an object or from a list of all of them. -/
def decodeFields (names : List String) : Json → Option (List Json)
  | object fields => names.mapM (field fields)
  | array elements => if elements.length = names.length then some elements else none
  | _ => none

/-- The only field of a structure. -/
def decodeField (name : String) (decode : Json → Option α) (j : Json) : Option α :=
  match decodeFields [name] j with
  | some [value] => decode value
  | _ => none

/-- The two fields of a structure. -/
def decodePair (name₁ name₂ : String) (decode₁ : Json → Option α) (decode₂ : Json → Option β)
    (j : Json) : Option (α × β) :=
  match decodeFields [name₁, name₂] j with
  | some [value₁, value₂] => (decode₁ value₁).bind fun a => (decode₂ value₂).map fun b => (a, b)
  | _ => none

/-- A variant with its tag outside its content. -/
def externallyTagged (tag : String) (content : Json) : Json := object [(tag, content)]

/-- Reads a variant by its tag. -/
def decodeTagged (variants : List (String × (Json → Option α))) : Json → Option α
  | object [(tag, content)] => (variants.lookup tag).bind fun decode => decode content
  | _ => none

theorem decodeNat_ofNat {n max : ℕ} : decodeNat max (number n 0) = some n ↔ n ≤ max := by
  change (if n ≤ max then some n else none) = some n ↔ n ≤ max
  split <;> simp [*]

theorem decodeField_object (name : String) (decode : Json → Option α) (value : Json) :
    decodeField name decode (object [(name, value)]) = decode value := by
  simp [decodeField, decodeFields, field]

theorem decodePair_object {name₁ name₂ : String} (hne : name₁ ≠ name₂)
    (decode₁ : Json → Option α) (decode₂ : Json → Option β) (value₁ value₂ : Json) :
    decodePair name₁ name₂ decode₁ decode₂ (object [(name₁, value₁), (name₂, value₂)]) =
      (decode₁ value₁).bind fun a => (decode₂ value₂).map fun b => (a, b) := by
  have hfields : decodeFields [name₁, name₂] (object [(name₁, value₁), (name₂, value₂)]) =
      some [value₁, value₂] := by
    simp [decodeFields, field, hne, hne.symm]
  rw [decodePair, hfields]

theorem decodeList_nil (decode : Json → Option α) : decodeList decode (array []) = some [] := rfl

theorem decodeList_cons (decode : Json → Option α) (element : Json) (elements : List Json) :
    decodeList decode (array (element :: elements)) =
      (decode element).bind fun a => (decodeList decode (array elements)).map (a :: ·) := by
  simp only [decodeList, List.mapM_cons]
  cases decode element <;> cases List.mapM decode elements <;> rfl

/-- A list is read back if its elements are. -/
theorem decodeList_map {encode : α → Json} {decode : Json → Option α} {as : List α}
    (h : ∀ a ∈ as, decode (encode a) = some a) :
    decodeList decode (array (as.map encode)) = some as := by
  induction as with
  | nil => rfl
  | cons a as ih =>
    rw [List.map_cons, decodeList_cons, h a List.mem_cons_self,
      ih fun b hb => h b (List.mem_cons_of_mem _ hb)]
    rfl

/-- A list with an element that is not read is not read. -/
theorem decodeList_cons_of_none {decode : Json → Option α} {element : Json}
    (h : decode element = none) (elements : List Json) :
    decodeList decode (array (element :: elements)) = none := by
  rw [decodeList_cons, h]
  rfl

/-- A variant is read by the reader of its tag. -/
theorem decodeTagged_externallyTagged {variants : List (String × (Json → Option α))} {tag : String}
    {decode : Json → Option α} (h : variants.lookup tag = some decode) (content : Json) :
    decodeTagged variants (externallyTagged tag content) = decode content := by
  rw [externallyTagged, decodeTagged, h]
  rfl

/-- An object whose only key is none of the tags is not read. -/
theorem decodeTagged_of_notMem {variants : List (String × (Json → Option α))} {key : String}
    (h : ∀ v ∈ variants, v.1 ≠ key) (content : Json) :
    decodeTagged variants (object [(key, content)]) = none := by
  have hnone : variants.lookup key = none := by
    rw [List.lookup_eq_none_iff]
    intro v hv
    exact bne_iff_ne.mpr (h v hv).symm
  rw [decodeTagged, hnone]
  rfl

end UncContracts.Json
