import UncContracts.Sdk.Json

/-!
# JSON texts

A text in JSON, read up to its strings, whose characters are kept as they are written: for
themselves, or as an escape. A reader that owns its strings does not see the difference. A reader
that borrows them from the text has only those without an escape.

## Main definitions

* `Letter`: a character of a string, as it is written
* `JsonText`: the texts
* `JsonText.borrow`: a string that is borrowed
* `JsonText.decodeStr`, `JsonText.decodeList`, `JsonText.decodeField`: readers that borrow

## Main results

* `JsonText.borrow_eq_some`: which strings can be borrowed
* `JsonText.borrow_spell`: a string that needs no escape is borrowed as it is
* `JsonText.decodeList_eq_none`: a list is not read if one of its elements is not
-/

namespace UncContracts

/-- The characters that may stand for themselves: no quotes, backslashes or control characters. -/
def StandsForItself (c : Char) : Prop := c ≠ '"' ∧ c ≠ '\\' ∧ ' ' ≤ c

instance (c : Char) : Decidable (StandsForItself c) :=
  inferInstanceAs (Decidable (c ≠ '"' ∧ c ≠ '\\' ∧ ' ' ≤ c))

/-- A character of a string, as it is written. -/
structure Letter where
  char : Char
  escaped : Bool
  standsForItself : escaped = false → StandsForItself char
  deriving Repr

/-- A character, escaped only where it must be. -/
def Letter.ofChar (c : Char) : Letter where
  char := c
  escaped := !decide (StandsForItself c)
  standsForItself h := by simpa using h

/-- A JSON value with its strings as they are written. -/
inductive JsonText
  | null
  | bool (b : Bool)
  | number (mantissa : ℤ) (exponent : ℕ)
  | string (letters : List Letter)
  | array (elements : List JsonText)
  | object (fields : List (List Letter × JsonText))
  deriving Repr

namespace JsonText

variable {α β : Type}

/-- The string that is written. -/
def unescape (letters : List Letter) : String := String.ofList (letters.map Letter.char)

/-- A string, escaped only where it must be. -/
def spell (s : String) : List Letter := s.toList.map Letter.ofChar

/-- The string that is written, as a part of the text: with an escape it is not there. -/
def borrow (letters : List Letter) : Option String :=
  if ∀ letter ∈ letters, letter.escaped = false then some (unescape letters) else none

/-- A string that is borrowed. -/
def decodeStr : JsonText → Option String
  | string letters => borrow letters
  | _ => none

/-- A list, by a reader of its elements. -/
def decodeList (decode : JsonText → Option α) : JsonText → Option (List α)
  | array elements => elements.mapM decode
  | _ => none

/-- The only field of a structure, from an object that has it exactly once or from a list of it. Its
name may have escapes, and other fields are ignored. -/
def decodeField (name : String) (decode : JsonText → Option α) : JsonText → Option α
  | object fields =>
    match fields.filter fun f => unescape f.1 = name with
    | [(_, value)] => decode value
    | _ => none
  | array [value] => decode value
  | _ => none

section Strings

variable {letters : List Letter} {letter : Letter} {s : String}

/-- **Only strings without an escape** are borrowed. -/
theorem borrow_eq_some : borrow letters = some s ↔
    (∀ letter ∈ letters, letter.escaped = false) ∧ unescape letters = s := by
  rw [borrow]
  split
  · next h => rw [Option.some.injEq, and_iff_right h]
  · next h =>
    constructor
    · intro hnone
      cases hnone
    · rintro ⟨hall, -⟩
      exact (h hall).elim

theorem borrow_eq_none (h : letter ∈ letters) (hescaped : letter.escaped = true) :
    borrow letters = none := by
  refine if_neg fun hall => ?_
  rw [hall letter h] at hescaped
  cases hescaped

theorem unescape_spell (s : String) : unescape (spell s) = s := by
  have hchars : (spell s).map Letter.char = s.toList := by
    rw [spell, List.map_map]
    exact List.map_id _
  rw [unescape, hchars, String.ofList_toList]

/-- A string that needs no escape is borrowed as it is. -/
theorem borrow_spell (h : ∀ c ∈ s.toList, StandsForItself c) : borrow (spell s) = some s := by
  refine borrow_eq_some.mpr ⟨fun letter hletter => ?_, unescape_spell s⟩
  obtain ⟨c, hc, rfl⟩ := List.mem_map.mp hletter
  simpa [Letter.ofChar] using h c hc

end Strings

section Structures

variable {decode : JsonText → Option α} {element : JsonText} {elements : List JsonText}

/-- A list is not read if one of its elements is not. -/
theorem decodeList_eq_none (h : element ∈ elements) (hnone : decode element = none) :
    decodeList decode (array elements) = none := by
  induction elements with
  | nil => cases h
  | cons first elements ih =>
    rw [decodeList, List.mapM_cons]
    rcases List.mem_cons.mp h with rfl | h
    · rw [hnone]
      rfl
    · rw [← decodeList, ih h]
      cases decode first <;> rfl

/-- A list is read element by element. -/
theorem decodeList_map {encode : β → JsonText} {read : β → α} {bs : List β}
    (h : ∀ b ∈ bs, decode (encode b) = some (read b)) :
    decodeList decode (array (bs.map encode)) = some (bs.map read) := by
  induction bs with
  | nil => rfl
  | cons b bs ih =>
    rw [decodeList, List.map_cons, List.mapM_cons, h b List.mem_cons_self, ← decodeList,
      ih fun b' hb => h b' (List.mem_cons_of_mem _ hb)]
    rfl

theorem decodeField_object (name : String) (decode : JsonText → Option α) (value : JsonText) :
    decodeField name decode (object [(spell name, value)]) = decode value := by
  simp [decodeField, unescape_spell]

end Structures

end JsonText

end UncContracts
