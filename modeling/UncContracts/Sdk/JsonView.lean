import Mathlib.Logic.Function.Basic
import UncContracts.Foundation.UnorderedMap
import UncContracts.Sdk.Json

/-!
# JSON values as maps

An object is a map of its fields. Two objects with the same fields are equal, in whatever order they
list them.

## Main definitions

* `JsonView`: a JSON value, where the fields of an object have no order
* `Json.IsView`: a JSON value is seen so, and no object in it repeats a field
* `Json.Equal`: JSON values that are seen as the same

## Main results

* `Json.IsView.unique`: a value is seen in one way
* `Json.IsView.write`: what writing a field does
-/

namespace UncContracts

open Foundation UnorderedMap

/-- A JSON value, where the fields of an object have no order. -/
inductive JsonView
  /-- There is no value. -/
  | absent
  | leaf (value : Json)
  | object (fields : String → JsonView)

namespace JsonView

/-- The fields of the empty object. -/
def noFields : String → JsonView := fun _ => .absent

/-- The value at a path. -/
def lookup : JsonView → List String → JsonView
  | view, [] => view
  | .object fields, key :: path => lookup (fields key) path
  | _, _ :: _ => .absent

variable {key : String} {path : List String} {fields : String → JsonView} {view : JsonView}

@[simp] theorem lookup_nil : view.lookup [] = view := by cases view <;> rfl

@[simp] theorem lookup_object : (object fields).lookup (key :: path) = (fields key).lookup path := rfl

@[simp] theorem lookup_leaf {value : Json} : (leaf value).lookup (key :: path) = .absent := rfl

@[simp] theorem lookup_absent : absent.lookup path = .absent := by cases path <;> rfl

end JsonView

namespace Json

/-- A value is seen as a map. No object in it repeats a field. -/
inductive IsView : Json → JsonView → Prop
  | leaf {value : Json} (h : value.isObject = false) : IsView value (.leaf value)
  | object {o : List (String × Json)} {fields : String → JsonView} (nodup : (o.map Prod.fst).Nodup)
    (absent : ∀ key, find key o = none → fields key = .absent)
    (field : ∀ key value, find key o = some value → IsView value (fields key)) :
    IsView (.object o) (.object fields)

/-- Values that are seen as the same. -/
def Equal (a b : Json) : Prop := ∃ view, a.IsView view ∧ b.IsView view

namespace IsView

variable {value : Json} {view view' : JsonView} {key : String} {o : List (String × Json)}
  {fields : String → JsonView}

theorem not_absent : ¬ IsView value .absent := by
  rintro ⟨⟩

/-- A value is seen in one way. -/
theorem unique (h : value.IsView view) (h' : value.IsView view') : view = view' := by
  induction h generalizing view' with
  | leaf hleaf =>
    cases h' with
    | leaf => rfl
    | object => cases hleaf
  | @object o fields nodup habsent hfield ih =>
    cases h' with
    | leaf hleaf => cases hleaf
    | @object _ fields' _ habsent' hfield' =>
      refine congrArg JsonView.object (funext fun key => ?_)
      cases hfind : find key o with
      | none => rw [habsent key hfind, habsent' key hfind]
      | some value => exact ih key value hfind (hfield' key value hfind)

theorem nodup (h : IsView (.object o) (.object fields)) : (o.map Prod.fst).Nodup := by
  cases h with
  | object nodup => exact nodup

theorem field (h : IsView (.object o) (.object fields)) (hfind : find key o = some value) :
    value.IsView (fields key) := by
  cases h with
  | object _ _ hfield => exact hfield key value hfind

theorem absent (h : IsView (.object o) (.object fields)) (hfind : find key o = none) :
    fields key = .absent := by
  cases h with
  | object _ habsent => exact habsent key hfind

theorem noFields : IsView (.object []) (.object JsonView.noFields) :=
  .object List.nodup_nil (fun _ _ => rfl) fun _ _ hfind => by cases hfind

/-- An object is seen as an object. -/
theorem exists_fields (h : IsView (.object o) view) : ∃ fields, view = .object fields := by
  cases h with
  | leaf hleaf => cases hleaf
  | object => exact ⟨_, rfl⟩

theorem eq_leaf (h : value.IsView view) (hleaf : value.isObject = false) : view = .leaf value := by
  cases h with
  | leaf => rfl
  | object => cases hleaf

/-- Writing a field. -/
theorem write (h : IsView (.object o) (.object fields)) (hvalue : value.IsView view) :
    IsView (.object (UnorderedMap.write key value o)) (.object (Function.update fields key view)) := by
  refine .object (nodup_write h.nodup) ?_ ?_
  · intro key' hfind
    rcases eq_or_ne key' key with rfl | hne
    · rw [find_write_self] at hfind
      cases hfind
    · rw [find_write_of_ne hne] at hfind
      rw [Function.update_of_ne hne]
      exact h.absent hfind
  · intro key' value' hfind
    rcases eq_or_ne key' key with rfl | hne
    · rw [find_write_self] at hfind
      cases hfind
      rw [Function.update_self]
      exact hvalue
    · rw [find_write_of_ne hne] at hfind
      rw [Function.update_of_ne hne]
      exact h.field hfind

end IsView

end Json

end UncContracts
