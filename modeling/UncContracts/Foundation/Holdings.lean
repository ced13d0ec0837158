import Mathlib.Algebra.BigOperators.Group.Finset.Basic
import Mathlib.Algebra.Order.Ring.Nat
import Mathlib.Data.List.AList

/-!
# Totals over a map

The sum of a quantity over the entries of a map, and how it changes when an entry is written or
removed.

## Main definitions

* `Map`: finite maps from keys to values
* `Map.total`: the sum of a quantity over the entries
* `Map.keyTotal`: the sum of a quantity over the keys

## Main results

* `Map.total_insert`, `Map.total_erase`: the total after a write and after a removal
* `Map.amount_le_total`: an entry is at most the total
* `Map.total_eq_sum`: the total as a sum over a set of keys
* `Map.total_congr`: the total depends on what is read
* `Map.keyTotal_insert_of_mem`, `Map.keyTotal_insert_of_notMem`: the total over the keys after a write
-/

namespace Foundation

/-- A finite map. -/
abbrev Map (κ ν : Type) := AList fun _ : κ => ν

namespace Map

variable {κ ν : Type}

/-- The sum of `f` over the entries of a map. -/
def total (f : ν → ℕ) (m : Map κ ν) : ℕ := (m.entries.map fun e => f e.2).sum

@[simp] theorem total_empty (f : ν → ℕ) : total f (∅ : Map κ ν) = 0 := rfl

theorem total_add (f g : ν → ℕ) (m : Map κ ν) :
    total (fun v => f v + g v) m = total f m + total g m := List.sum_map_add

theorem total_comp (g : ℕ → ℕ) (f : ν → ℕ) (m : Map κ ν) :
    total (fun v => g (f v)) m = ((m.entries.map fun e => f e.2).map g).sum := by
  rw [List.map_map]
  rfl

/-- The sum of `f` over the keys of a map. -/
def keyTotal (f : κ → ℕ) (m : Map κ ν) : ℕ := (m.keys.map f).sum

@[simp] theorem keyTotal_empty (f : κ → ℕ) : keyTotal f (∅ : Map κ ν) = 0 := rfl

variable [DecidableEq κ]

/-- What `f` is at a key: zero where the map has no entry. -/
def amount (f : ν → ℕ) (m : Map κ ν) (k : κ) : ℕ := (m.lookup k).elim 0 f

theorem amount_of_lookup {f : ν → ℕ} {m : Map κ ν} {k : κ} {v : ν} (h : m.lookup k = some v) :
    m.amount f k = f v := by
  simp [amount, h]

theorem amount_of_lookup_none {f : ν → ℕ} {m : Map κ ν} {k : κ} (h : m.lookup k = none) :
    m.amount f k = 0 := by
  simp [amount, h]

theorem sum_kerase_add (f : ν → ℕ) (k : κ) (l : List (Sigma fun _ : κ => ν)) :
    ((l.kerase k).map fun e => f e.2).sum + (l.dlookup k).elim 0 f = (l.map fun e => f e.2).sum := by
  induction l with
  | nil => rfl
  | cons e l ih =>
    by_cases h : k = e.1
    · subst h
      rw [List.kerase_cons_eq rfl, show (e :: l).dlookup e.1 = some e.2 from
        List.dlookup_cons_eq l e.1 e.2]
      simp [Nat.add_comm]
    · rw [List.kerase_cons_ne h, List.dlookup_cons_ne l e h]
      simp only [List.map_cons, List.sum_cons]
      omega

theorem total_erase (f : ν → ℕ) (m : Map κ ν) (k : κ) :
    total f (m.erase k) + m.amount f k = total f m :=
  sum_kerase_add f k m.entries

theorem total_insert (f : ν → ℕ) (m : Map κ ν) (k : κ) (v : ν) :
    total f (m.insert k v) + m.amount f k = total f m + f v := by
  rw [← total_erase f m k]
  have hsum : total f (m.insert k v) = f v + total f (m.erase k) := rfl
  omega

theorem amount_le_total (f : ν → ℕ) (m : Map κ ν) (k : κ) : m.amount f k ≤ total f m := by
  rw [← total_erase f m k]
  exact Nat.le_add_left _ _

/-- The total as a sum over the keys of the map. -/
theorem total_eq_sum (f : ν → ℕ) (m : Map κ ν) {keys : Finset κ} (hkeys : ∀ k, k ∈ keys ↔ k ∈ m) :
    total f m = ∑ k ∈ keys, m.amount f k := by
  have hset : keys = m.keys.toFinset := by
    ext k
    rw [hkeys, List.mem_toFinset, AList.mem_keys]
  have hentries : (m.entries.map fun e => f e.2) = m.entries.map fun e => m.amount f e.1 := by
    refine List.map_congr_left ?_
    rintro ⟨k, v⟩ he
    exact (amount_of_lookup (AList.mem_lookup_iff.mpr he)).symm
  rw [hset, List.sum_toFinset _ m.keys_nodup, total, hentries]
  simp only [AList.keys, List.keys, List.map_map]
  rfl

/-- Maps that read the same have the same total. -/
theorem total_congr (f : ν → ℕ) {m m' : Map κ ν} (h : ∀ k, m'.lookup k = m.lookup k) :
    total f m' = total f m := by
  have hkeys : ∀ k, k ∈ m.keys.toFinset ↔ k ∈ m' := by
    intro k
    rw [List.mem_toFinset, ← AList.mem_keys, ← AList.lookup_isSome, ← h, AList.lookup_isSome]
  rw [total_eq_sum f m' hkeys, total_eq_sum f m fun k => by rw [List.mem_toFinset, AList.mem_keys]]
  refine Finset.sum_congr rfl ?_
  intro k _
  rw [amount, amount, h]

/-- Maps that read the same but at one key differ by what is there. -/
theorem total_congr_of_ne (f : ν → ℕ) {m m' : Map κ ν} {k : κ}
    (h : ∀ j, j ≠ k → m'.lookup j = m.lookup j) :
    total f m' + m.amount f k = total f m + m'.amount f k := by
  have herase : total f (m'.erase k) = total f (m.erase k) := by
    refine total_congr f ?_
    intro j
    by_cases hj : j = k
    · rw [hj, AList.lookup_erase, AList.lookup_erase]
    · rw [AList.lookup_erase_ne hj, AList.lookup_erase_ne hj, h j hj]
  rw [← total_erase f m' k, ← total_erase f m k, herase]
  omega

theorem keyTotal_insert_of_mem (f : κ → ℕ) {m : Map κ ν} {k : κ} (h : k ∈ m) (v : ν) :
    keyTotal f (m.insert k v) = keyTotal f m := by
  have hperm := (List.perm_cons_erase (AList.mem_keys.mp h)).map f
  rw [keyTotal, AList.keys_insert, keyTotal, hperm.sum_eq]

theorem keyTotal_insert_of_notMem (f : κ → ℕ) {m : Map κ ν} {k : κ} (h : k ∉ m) (v : ν) :
    keyTotal f (m.insert k v) = f k + keyTotal f m := by
  rw [keyTotal, AList.keys_insert, List.erase_of_not_mem (mt AList.mem_keys.mpr h), List.map_cons,
    List.sum_cons, keyTotal]

end Map

end Foundation
