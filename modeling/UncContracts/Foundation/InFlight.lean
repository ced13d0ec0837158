import Mathlib.Algebra.BigOperators.Group.List.Basic
import Mathlib.Algebra.Order.Ring.Nat
import Mathlib.Data.List.Nodup

/-!
# Messages in flight

Messages that may be delivered in any order, as a list from which any element may be taken. What
is said about the messages is said up to their order: of their members, of a sum over them and of
the distinctness of their keys.

## Main definitions

* `takeAt`: a message and the remaining ones
* `shift`: the position of a message after another one is taken

## Main results

* `takeAt_perm`: taking a message only reorders
* `getElem?_shift`: a message is found at its position
* `mem_of_takeAt`, `sum_of_takeAt`, `nodup_of_takeAt`: members, sums and keys
-/

namespace Foundation

variable {α β : Type}

/-- The message at a position and the remaining ones. -/
def takeAt (l : List α) (i : ℕ) : Option (α × List α) := l[i]?.map fun a => (a, l.eraseIdx i)

variable {l rest : List α} {i : ℕ} {a : α}

theorem takeAt_eq_some :
    takeAt l i = some (a, rest) ↔ l[i]? = some a ∧ l.eraseIdx i = rest := by
  simp [takeAt]

/-- The position of the message at `j` after the one at `i` is taken. -/
def shift (i j : ℕ) : ℕ := if j < i then j else j - 1

/-- A message that is not taken is found at its position. -/
theorem getElem?_shift {j : ℕ} (h : takeAt l i = some (a, rest)) (hne : i ≠ j) :
    rest[shift i j]? = l[j]? := by
  obtain ⟨-, rfl⟩ := takeAt_eq_some.mp h
  unfold shift
  rcases Nat.lt_or_gt_of_ne hne with hlt | hgt
  · rw [if_neg (Nat.lt_asymm hlt), List.getElem?_eraseIdx_of_ge (Nat.le_sub_one_of_lt hlt),
      Nat.sub_add_cancel (Nat.one_le_of_lt hlt)]
  · rw [if_pos hgt, List.getElem?_eraseIdx_of_lt hgt]

/-- Taking a message only reorders the messages. -/
theorem takeAt_perm (h : takeAt l i = some (a, rest)) : l.Perm (a :: rest) := by
  obtain ⟨hget, rfl⟩ := takeAt_eq_some.mp h
  obtain ⟨hi, rfl⟩ := List.getElem?_eq_some_iff.mp hget
  exact (List.getElem_cons_eraseIdx_perm hi).symm

theorem mem_of_takeAt (h : takeAt l i = some (a, rest)) {b : α} : b ∈ l ↔ b = a ∨ b ∈ rest := by
  rw [(takeAt_perm h).mem_iff, List.mem_cons]

theorem sum_of_takeAt (h : takeAt l i = some (a, rest)) (f : α → ℕ) :
    (l.map f).sum = f a + (rest.map f).sum := by
  rw [((takeAt_perm h).map f).sum_eq, List.map_cons, List.sum_cons]

/-- If the keys of the messages are distinct, then a key taken is not left. -/
theorem nodup_of_takeAt (h : takeAt l i = some (a, rest)) {key : α → Option β}
    (hl : (l.filterMap key).Nodup) :
    (rest.filterMap key).Nodup ∧ ∀ b, key a = some b → b ∉ rest.filterMap key := by
  have hperm := ((takeAt_perm h).filterMap key).nodup_iff.mp hl
  cases hkey : key a with
  | none =>
    rw [List.filterMap_cons_none hkey] at hperm
    exact ⟨hperm, fun b hb => by cases hb⟩
  | some b =>
    rw [List.filterMap_cons_some hkey, List.nodup_cons] at hperm
    refine ⟨hperm.2, ?_⟩
    intro b' hb'
    cases hb'
    exact hperm.1

theorem mem_filterMap_of_takeAt (h : takeAt l i = some (a, rest)) {key : α → Option β} {b : β} :
    b ∈ l.filterMap key ↔ key a = some b ∨ b ∈ rest.filterMap key := by
  simp only [List.mem_filterMap, mem_of_takeAt h]
  constructor
  · rintro ⟨c, rfl | hc, hb⟩
    · exact .inl hb
    · exact .inr ⟨c, hc, hb⟩
  · rintro (hb | ⟨c, hc, hb⟩)
    · exact ⟨a, .inl rfl, hb⟩
    · exact ⟨c, .inr hc, hb⟩

end Foundation
