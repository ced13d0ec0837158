import UncContracts.Foundation.UnorderedMap
import UncContracts.Sdk.Json

/-!
# The leaves of JSON values

A leaf is a value that is no array and no object. Mapping the leaves of a value keeps its arrays, its
objects and their fields.

## Main definitions

* `Json.mapLeaves`: a value whose leaves are mapped

## Main results

* `Json.find_mapFields`, `Json.write_mapFields`: reading and writing the fields of an object
-/

namespace UncContracts

namespace Json

open Foundation UnorderedMap

mutual

/-- A value whose leaves are mapped. -/
def mapLeaves (f : Json → Json) : Json → Json
  | .object fields => .object (mapFields f fields)
  | .array elements => .array (mapElements f elements)
  | value => f value

/-- Fields whose leaves are mapped. -/
def mapFields (f : Json → Json) : List (String × Json) → List (String × Json)
  | [] => []
  | (key, value) :: fields => (key, mapLeaves f value) :: mapFields f fields

/-- Elements whose leaves are mapped. -/
def mapElements (f : Json → Json) : List Json → List Json
  | [] => []
  | value :: elements => mapLeaves f value :: mapElements f elements

end

variable {f : Json → Json} {key : String} {value : Json} {fields : List (String × Json)}

@[simp] theorem mapLeaves_object :
    mapLeaves f (.object fields) = .object (mapFields f fields) := by
  rw [mapLeaves]

@[simp] theorem mapFields_nil : mapFields f [] = [] := by
  rw [mapFields]

theorem mapFields_eq_map (f : Json → Json) (fields : List (String × Json)) :
    mapFields f fields = fields.map fun field => (field.1, mapLeaves f field.2) := by
  induction fields with
  | nil => exact mapFields_nil
  | cons field fields ih =>
    obtain ⟨key, value⟩ := field
    rw [mapFields, ih, List.map_cons]

theorem find_mapFields (f : Json → Json) (key : String) (fields : List (String × Json)) :
    find key (mapFields f fields) = (find key fields).map (mapLeaves f) := by
  rw [mapFields_eq_map, find_map]

theorem write_mapFields (f : Json → Json) (key : String) (value : Json)
    (fields : List (String × Json)) :
    write key (mapLeaves f value) (mapFields f fields) = mapFields f (write key value fields) := by
  rw [mapFields_eq_map, mapFields_eq_map, write_map]

end Json

end UncContracts
