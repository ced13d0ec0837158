import UncContracts.Sdk.Serde

/-!
# Arguments of calls

The arguments of a call are a structure. A field that is optional may be missing or null. Integers
of sixty-four bits and more are wrapped: they are represented by their decimal digits.

## Main definitions

* `Json.decodeStruct`: the values of the fields of a structure, some of which are optional
* `Json.encodeOption`, `Json.decodeOption`: optional values
* `Json.parseUnsigned`, `Json.wrapped`, `Json.decodeWrapped`: wrapped integers

## Main results

* `Json.decodeStruct_object`: a structure is read back, field by field
* `Json.decodeOption_encodeOption`: an optional value is read back
* `Json.decodeWrapped_wrapped`: a wrapped integer is read back, exactly if it fits
-/

namespace UncContracts.Json

variable {α β : Type}

/-! ## Structures -/

/-- The value of a field, which must not be there twice. An optional field that is missing is
null. -/
def fieldOrNull (values : List (String × Json)) (name : String) (isOptional : Bool) : Option Json :=
  match values.filter fun f => f.1 = name with
  | [] => if isOptional then some null else none
  | [(_, value)] => some value
  | _ => none

/-- The values of the fields of a structure, given with whether they are optional, from an object
or from a list of all of them. Other fields are ignored. -/
def decodeStruct (fields : List (String × Bool)) : Json → Option (List Json)
  | object values => fields.mapM fun f => fieldOrNull values f.1 f.2
  | array elements => if elements.length = fields.length then some elements else none
  | _ => none

/-- A field that is there once is read. -/
theorem fieldOrNull_append {before after : List (String × Json)} {name : String} (value : Json)
    (hbefore : name ∉ before.map Prod.fst) (hafter : name ∉ after.map Prod.fst)
    (isOptional : Bool) :
    fieldOrNull (before ++ (name, value) :: after) name isOptional = some value := by
  have hnone : ∀ {fs : List (String × Json)}, name ∉ fs.map Prod.fst →
      (fs.filter fun f => f.1 = name) = [] := by
    intro fs hfs
    refine List.filter_eq_nil_iff.mpr ?_
    intro f hf heq
    exact hfs (List.mem_map.mpr ⟨f, hf, of_decide_eq_true heq⟩)
  simp [fieldOrNull, List.filter_append, hnone hbefore, hnone hafter]

/-- A structure is read back, field by field. -/
theorem decodeStruct_object {fields : List (String × Bool)} (values : List Json)
    (hlength : values.length = fields.length) (hnodup : (fields.map Prod.fst).Nodup) :
    decodeStruct fields (object ((fields.map Prod.fst).zip values)) = some values := by
  -- The induction is on the fields that are left, with those already read before them.
  have hread : ∀ before : List (String × Json),
      (∀ name ∈ fields.map Prod.fst, name ∉ before.map Prod.fst) →
      (fields.mapM fun f => fieldOrNull (before ++ (fields.map Prod.fst).zip values) f.1 f.2) =
        some values := by
    induction fields generalizing values with
    | nil =>
      intro before _
      obtain rfl := List.eq_nil_of_length_eq_zero hlength
      rfl
    | cons field fields ih =>
      intro before hbefore
      obtain ⟨value, values, rfl⟩ := List.exists_of_length_succ values hlength
      obtain ⟨hfield, hnodup⟩ := List.nodup_cons.mp hnodup
      have hkeys : ((fields.map Prod.fst).zip values).map Prod.fst = fields.map Prod.fst :=
        List.map_fst_zip (by simp at hlength ⊢; omega)
      have hvalue := fieldOrNull_append value (hbefore _ List.mem_cons_self)
        (by rw [hkeys]; exact hfield) field.2
      have hrest := ih values (by simpa using hlength) hnodup (before ++ [(field.1, value)]) (by
        intro name hname
        rw [List.map_append, List.mem_append, not_or]
        refine ⟨hbefore name (List.mem_cons_of_mem _ hname), ?_⟩
        rintro hmem
        rcases List.mem_singleton.mp hmem with rfl
        exact hfield hname)
      rw [List.append_assoc, List.singleton_append] at hrest
      simp only [List.map_cons, List.zip_cons_cons, List.mapM_cons, hvalue, hrest]
      rfl
  exact hread [] fun name _ => List.not_mem_nil

/-! ## Variants -/

/-- What is read as a variant is read by the reader of one of the tags. -/
theorem exists_of_decodeTagged {variants : List (String × (Json → Option α))} {j : Json} {a : α}
    (h : decodeTagged variants j = some a) :
    ∃ tag decode content, (tag, decode) ∈ variants ∧ decode content = some a := by
  unfold decodeTagged at h
  split at h
  · next tag content =>
    obtain ⟨decode, hlookup, hread⟩ := Option.bind_eq_some_iff.mp h
    obtain ⟨before, after, heq, -⟩ := List.lookup_eq_some_iff.mp hlookup
    exact ⟨tag, decode, content, by simp [heq], hread⟩
  · cases h

/-- What the two fields of a structure are read from. -/
theorem exists_of_decodePair {name₁ name₂ : String} {decode₁ : Json → Option α}
    {decode₂ : Json → Option β} {j : Json} {a : α} {b : β}
    (h : decodePair name₁ name₂ decode₁ decode₂ j = some (a, b)) :
    ∃ value₁ value₂, decode₁ value₁ = some a ∧ decode₂ value₂ = some b := by
  unfold decodePair at h
  split at h
  · next value₁ value₂ _ =>
    obtain ⟨a', ha, h⟩ := Option.bind_eq_some_iff.mp h
    obtain ⟨b', hb, heq⟩ := Option.map_eq_some_iff.mp h
    cases heq
    exact ⟨value₁, value₂, ha, hb⟩
  · cases h

/-! ## Optional values -/

/-- An optional value; none is null. -/
def encodeOption (encode : α → Json) : Option α → Json
  | none => null
  | some a => encode a

/-- Reads an optional value, by a reader of the value. -/
def decodeOption (decode : Json → Option α) : Json → Option (Option α)
  | null => some none
  | j => (decode j).map some

/-- An optional value is read back if the value is. -/
theorem decodeOption_encodeOption {encode : α → Json} {decode : Json → Option α} {o : Option α}
    (h : ∀ a ∈ o, decode (encode a) = some a) (hnull : ∀ a, (encode a).isNull = false) :
    decodeOption decode (encodeOption encode o) = some o := by
  cases o with
  | none => rfl
  | some a =>
    have hsome : ∀ j : Json, j.isNull = false → decodeOption decode j = (decode j).map some := by
      intro j hj
      cases j <;> first | rfl | cases hj
    rw [encodeOption, hsome _ (hnull a), h a rfl]
    rfl

/-- What an optional value is read from. -/
theorem exists_of_decodeOption {decode : Json → Option α} {j : Json} {o : Option α}
    (h : decodeOption decode j = some o) : ∀ a ∈ o, decode j = some a := by
  rintro a rfl
  cases j <;> simp_all [decodeOption]

/-! ## Strings and numbers -/

theorem exists_of_decodeString {parse : String → Option α} {j : Json} {a : α}
    (h : decodeString parse j = some a) : ∃ text, parse text = some a := by
  cases j <;> first | exact ⟨_, h⟩ | cases h

/-- What is read as a number fits. -/
theorem le_of_decodeNat {max n : ℕ} {j : Json} (h : decodeNat max j = some n) : n ≤ max := by
  unfold decodeNat at h
  split at h
  · split_ifs at h with hle
    cases h
    exact hle
  · cases h

/-! ## Wrapped integers -/

/-- `str::parse` of an unsigned integer up to a maximum: decimal digits, after a sign or not. -/
def parseUnsigned (max : ℕ) (s : String) : Option ℕ :=
  let digits := match s.toList with
    | '+' :: cs => cs
    | cs => cs
  if digits ≠ [] ∧ digits.all Char.isDigit ∧ Nat.ofDigitChars 10 digits 0 ≤ max then
    some (Nat.ofDigitChars 10 digits 0)
  else none

/-- A wrapped integer, `U64` or `U128`. -/
def wrapped (n : ℕ) : Json := string n.repr

def decodeWrapped (max : ℕ) : Json → Option ℕ := decodeString (parseUnsigned max)

/-- The decimal digits of an integer are parsed exactly if it fits. -/
theorem parseUnsigned_repr {n max : ℕ} : parseUnsigned max n.repr = some n ↔ n ≤ max := by
  have hdigits : ∀ c ∈ Nat.toDigits 10 n, c.isDigit := fun c hc =>
    Nat.isDigit_of_mem_toDigits (by decide) (by decide) hc
  have hunsigned : (match Nat.toDigits 10 n with
      | '+' :: cs => cs
      | cs => cs) = Nat.toDigits 10 n := by
    split
    · next cs heq =>
      have hsign := hdigits '+' (heq ▸ List.mem_cons_self)
      cases hsign
    · rfl
  have hall : (Nat.toDigits 10 n).all Char.isDigit := List.all_eq_true.mpr hdigits
  simp only [parseUnsigned, Nat.toList_repr, hunsigned, Nat.ofDigitChars_ten_toDigits, hall]
  split <;> simp_all

theorem decodeWrapped_wrapped {n max : ℕ} : decodeWrapped max (wrapped n) = some n ↔ n ≤ max :=
  parseUnsigned_repr

/-- What is read as a wrapped integer fits. -/
theorem le_of_decodeWrapped {n max : ℕ} {j : Json} (h : decodeWrapped max j = some n) :
    n ≤ max := by
  cases j <;> simp only [decodeWrapped, decodeString, reduceCtorEq] at h
  simp only [parseUnsigned, Option.ite_none_right_eq_some, Option.some.injEq] at h
  obtain ⟨⟨-, -, hle⟩, rfl⟩ := h
  exact hle

end UncContracts.Json
