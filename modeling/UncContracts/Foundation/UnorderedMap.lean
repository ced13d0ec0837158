import Mathlib.Algebra.BigOperators.Group.List.Basic
import Mathlib.Algebra.Order.Ring.Nat
import Mathlib.Data.List.Intervals
import Mathlib.Data.List.Nodup
import Mathlib.Data.List.Perm.Subperm

/-!
# Unordered maps

A map that keeps its entries in a list, so that they can be enumerated by their positions. A new
entry joins at the end, and the last entry takes the place of a removed one.

## Main definitions

* `UnorderedMap`: entries with distinct keys
* `UnorderedMap.get`, `UnorderedMap.insert`, `UnorderedMap.remove`: the operations
* `UnorderedMap.total`: the sum of a quantity over the entries

## Main results

* `UnorderedMap.get_eq_some`: what is read is an entry
* `UnorderedMap.get_insert_self`, `UnorderedMap.get_insert_of_ne`: what is read after a write
* `UnorderedMap.get_remove_eq_some`: what is read after a removal
* `UnorderedMap.get_foldl_insert`: what is read after a list of writes
* `UnorderedMap.total_congr`: the total depends on what is read
* `flatMap_pages`: an enumeration by pages
* `foldl_eq_of_mem_iff`: a fold that depends on the elements alone
-/

namespace Foundation

/-- Entries with distinct keys, in the order of their positions. -/
structure UnorderedMap (κ ν : Type) where
  entries : List (κ × ν)
  nodup : (entries.map Prod.fst).Nodup
  deriving DecidableEq

namespace UnorderedMap

variable {κ ν : Type}

/-- The map without entries. -/
def empty : UnorderedMap κ ν := ⟨[], List.nodup_nil⟩

instance : Inhabited (UnorderedMap κ ν) := ⟨empty⟩

variable [DecidableEq κ]

/-- The value at a key among entries. -/
def find (k : κ) : List (κ × ν) → Option ν
  | [] => none
  | e :: es => if e.1 = k then some e.2 else find k es

def get (m : UnorderedMap κ ν) (k : κ) : Option ν := find k m.entries

/-- Entries after a write: in place, or at the end. -/
def write (k : κ) (v : ν) : List (κ × ν) → List (κ × ν)
  | [] => [(k, v)]
  | e :: es => if e.1 = k then (k, v) :: es else e :: write k v es

/-- Entries after a removal: the last one takes the place. -/
def swapRemove (k : κ) : List (κ × ν) → List (κ × ν)
  | [] => []
  | e :: es =>
    if e.1 = k then es.getLast?.toList ++ es.dropLast
    else e :: swapRemove k es

section Keys

variable {k k' : κ} {v : ν} {es : List (κ × ν)}

theorem mem_keys_write : k' ∈ (write k v es).map Prod.fst ↔ k' = k ∨ k' ∈ es.map Prod.fst := by
  induction es with
  | nil => simp [write]
  | cons e es ih =>
    by_cases h : e.1 = k
    · rw [write, if_pos h, List.map_cons, List.map_cons, List.mem_cons, List.mem_cons, h]
      tauto
    · simp only [write, if_neg h, List.map_cons, List.mem_cons, ih]
      tauto

theorem nodup_write (h : (es.map Prod.fst).Nodup) : ((write k v es).map Prod.fst).Nodup := by
  induction es with
  | nil => simp [write]
  | cons e es ih =>
    rw [List.map_cons, List.nodup_cons] at h
    by_cases hk : e.1 = k
    · simp only [write, if_pos hk, List.map_cons, List.nodup_cons]
      exact ⟨hk ▸ h.1, h.2⟩
    · simp only [write, if_neg hk, List.map_cons, List.nodup_cons]
      refine ⟨?_, ih h.2⟩
      rw [mem_keys_write]
      rintro (heq | hmem)
      · exact hk heq
      · exact h.1 hmem

omit [DecidableEq κ] in
theorem getLast_dropLast_perm (es : List (κ × ν)) :
    (es.getLast?.toList ++ es.dropLast).Perm es := by
  rcases List.eq_nil_or_concat es with rfl | ⟨init, last, rfl⟩
  · simp
  · simp only [List.concat_eq_append, List.getLast?_append, List.getLast?_singleton,
      Option.some_or, Option.toList_some, List.dropLast_concat]
    exact List.perm_append_comm

theorem swapRemove_subperm (k : κ) (es : List (κ × ν)) : (swapRemove k es).Subperm es := by
  induction es with
  | nil => exact .refl []
  | cons e es ih =>
    by_cases h : e.1 = k
    · simp only [swapRemove, if_pos h]
      exact (getLast_dropLast_perm es).subperm.trans (List.sublist_cons_self e es).subperm
    · simp only [swapRemove, if_neg h]
      exact (List.subperm_cons e).mpr ih

theorem nodup_swapRemove (h : (es.map Prod.fst).Nodup) :
    ((swapRemove k es).map Prod.fst).Nodup := by
  obtain ⟨l, hperm, hsub⟩ := swapRemove_subperm k es
  exact (hperm.map Prod.fst).nodup_iff.mp (h.sublist (hsub.map Prod.fst))

theorem find_write_self : find k (write k v es) = some v := by
  induction es with
  | nil => simp [write, find]
  | cons e es ih =>
    by_cases h : e.1 = k
    · simp [write, find, h]
    · simp [write, find, h, ih]

theorem find_write_of_ne (h : k' ≠ k) : find k' (write k v es) = find k' es := by
  induction es with
  | nil => simp [write, find, h.symm]
  | cons e es ih =>
    by_cases hk : e.1 = k
    · simp [write, find, hk, h.symm]
    · simp only [write, if_neg hk, find, ih]

/-- A write of what is there changes nothing. -/
theorem write_of_find (h : find k es = some v) : write k v es = es := by
  induction es with
  | nil => cases h
  | cons e es ih =>
    by_cases hk : e.1 = k
    · rw [find, if_pos hk] at h
      cases h
      rw [write, if_pos hk, ← hk]
    · rw [find, if_neg hk] at h
      rw [write, if_neg hk, ih h]

/-- What is found among entries whose values are mapped. -/
theorem find_map {μ : Type} (g : ν → μ) (k : κ) (es : List (κ × ν)) :
    find k (es.map fun e => (e.1, g e.2)) = (find k es).map g := by
  induction es with
  | nil => rfl
  | cons e es ih =>
    by_cases hk : e.1 = k
    · simp only [List.map_cons, find, if_pos hk, Option.map_some]
    · simp only [List.map_cons, find, if_neg hk, ih]

/-- A write among entries whose values are mapped. -/
theorem write_map {μ : Type} (g : ν → μ) (k : κ) (v : ν) (es : List (κ × ν)) :
    write k (g v) (es.map fun e => (e.1, g e.2)) = (write k v es).map fun e => (e.1, g e.2) := by
  induction es with
  | nil => rfl
  | cons e es ih =>
    by_cases hk : e.1 = k
    · simp only [List.map_cons, write, if_pos hk]
    · simp only [List.map_cons, write, if_neg hk, ih]

theorem find_eq_none : find k es = none ↔ k ∉ es.map Prod.fst := by
  induction es with
  | nil => simp [find]
  | cons e es ih =>
    by_cases hk : e.1 = k
    · simp [find, hk]
    · rw [find, if_neg hk, ih, List.map_cons, List.mem_cons, not_or]
      exact ⟨fun h => ⟨Ne.symm hk, h⟩, fun h => h.2⟩

/-- What is found at a key is the entry of it. -/
theorem find_eq_some (h : (es.map Prod.fst).Nodup) : find k es = some v ↔ (k, v) ∈ es := by
  induction es with
  | nil => simp [find]
  | cons e es ih =>
    rw [List.map_cons, List.nodup_cons] at h
    by_cases hk : e.1 = k
    · have hnone : (k, v) ∉ es := by
        intro hmem
        exact h.1 (hk ▸ List.mem_map_of_mem (f := Prod.fst) hmem)
      rw [find, if_pos hk, Option.some.injEq, List.mem_cons, or_iff_left hnone]
      constructor
      · rintro rfl
        rw [← hk]
      · intro heq
        rw [← heq]
    · rw [find, if_neg hk, ih h.2, List.mem_cons]
      refine ⟨.inr, ?_⟩
      rintro (heq | hmem)
      · exact absurd (congrArg Prod.fst heq).symm hk
      · exact hmem

/-- A removal leaves the entries of the other keys. -/
theorem mem_swapRemove (h : (es.map Prod.fst).Nodup) {e : κ × ν} :
    e ∈ swapRemove k es ↔ e ∈ es ∧ e.1 ≠ k := by
  induction es with
  | nil => simp [swapRemove]
  | cons d es ih =>
    rw [List.map_cons, List.nodup_cons] at h
    by_cases hk : d.1 = k
    · rw [swapRemove, if_pos hk, (getLast_dropLast_perm es).mem_iff, List.mem_cons]
      constructor
      · intro hmem
        refine ⟨.inr hmem, ?_⟩
        rintro heq
        exact h.1 (hk ▸ heq ▸ List.mem_map_of_mem (f := Prod.fst) hmem)
      · rintro ⟨rfl | hmem, hne⟩
        · exact absurd hk hne
        · exact hmem
    · rw [swapRemove, if_neg hk, List.mem_cons, List.mem_cons, ih h.2]
      constructor
      · rintro (rfl | ⟨hmem, hne⟩)
        · exact ⟨.inl rfl, hk⟩
        · exact ⟨.inr hmem, hne⟩
      · rintro ⟨rfl | hmem, hne⟩
        · exact .inl rfl
        · exact .inr ⟨hmem, hne⟩

end Keys

def insert (m : UnorderedMap κ ν) (k : κ) (v : ν) : UnorderedMap κ ν :=
  ⟨write k v m.entries, nodup_write m.nodup⟩

def remove (m : UnorderedMap κ ν) (k : κ) : UnorderedMap κ ν :=
  ⟨swapRemove k m.entries, nodup_swapRemove m.nodup⟩

variable {m : UnorderedMap κ ν} {k k' : κ} {v : ν}

@[simp] theorem get_empty (k : κ) : (empty : UnorderedMap κ ν).get k = none := rfl

@[simp] theorem get_insert_self : (m.insert k v).get k = some v := find_write_self

theorem get_insert_of_ne (h : k' ≠ k) : (m.insert k v).get k' = m.get k' := find_write_of_ne h

/-- What is read at a key is the entry of it. -/
theorem get_eq_some : m.get k = some v ↔ (k, v) ∈ m.entries := find_eq_some m.nodup

theorem get_remove_eq_some : (m.remove k).get k' = some v ↔ m.get k' = some v ∧ k' ≠ k := by
  rw [get_eq_some, get_eq_some]
  exact mem_swapRemove m.nodup

/-- The sum of `f` over the entries of a map. -/
def total (f : κ → ν → ℕ) (m : UnorderedMap κ ν) : ℕ := (m.entries.map fun e => f e.1 e.2).sum

omit [DecidableEq κ] in
@[simp] theorem total_empty (f : κ → ν → ℕ) : (empty : UnorderedMap κ ν).total f = 0 := rfl

theorem write_of_find_none {es : List (κ × ν)} (h : find k es = none) :
    write k v es = es ++ [(k, v)] := by
  induction es with
  | nil => rfl
  | cons e es ih =>
    by_cases hk : e.1 = k
    · simp [find, hk] at h
    · rw [find, if_neg hk] at h
      rw [write, if_neg hk, ih h, List.cons_append]

/-- A new entry adds to the total. -/
theorem total_insert_of_none (f : κ → ν → ℕ) (h : m.get k = none) :
    (m.insert k v).total f = m.total f + f k v := by
  simp only [total, insert, write_of_find_none h, List.map_append, List.sum_append, List.map_cons,
    List.map_nil, List.sum_cons, List.sum_nil, Nat.add_zero]

/-- Maps that read the same have the same total, in whatever order their entries are. -/
theorem total_congr {m' : UnorderedMap κ ν} (f : κ → ν → ℕ) (h : ∀ k, m'.get k = m.get k) :
    m'.total f = m.total f := by
  have hperm : m'.entries.Perm m.entries := by
    refine (List.perm_ext_iff_of_nodup (List.Nodup.of_map _ m'.nodup)
      (List.Nodup.of_map _ m.nodup)).mpr ?_
    rintro ⟨k, v⟩
    rw [← get_eq_some, ← get_eq_some, h]
  exact (hperm.map _).sum_eq

/-- What is read after entries are written one after the other. -/
theorem get_foldl_insert (f : ν → ν) {es : List (κ × ν)} (h : (es.map Prod.fst).Nodup)
    (m : UnorderedMap κ ν) (k : κ) :
    (es.foldl (fun m e => m.insert e.1 (f e.2)) m).get k = ((find k es).map f).or (m.get k) := by
  induction es generalizing m with
  | nil => rfl
  | cons e es ih =>
    rw [List.map_cons, List.nodup_cons] at h
    rw [List.foldl_cons, ih h.2]
    by_cases hk : e.1 = k
    · have hnone : find k es = none := find_eq_none.mpr (hk ▸ h.1)
      rw [hnone, ← hk, get_insert_self, find, if_pos rfl]
      rfl
    · rw [get_insert_of_ne (Ne.symm hk), find, if_neg hk]

/-- An entry that is cut off is not found any more. -/
theorem exists_cut {es : List (κ × ν)} (h : (es.map Prod.fst).Nodup) {n : ℕ} (hn : n < es.length) :
    ∃ k v, find k es = some v ∧ find k (es.take n) = none := by
  refine ⟨es[n].1, es[n].2, (find_eq_some h).mpr (List.getElem_mem hn), ?_⟩
  rw [find_eq_none]
  have hsplit : ((es.take n).map Prod.fst ++ (es.drop n).map Prod.fst).Nodup := by
    rwa [← List.map_append, List.take_append_drop]
  intro hmem
  refine List.disjoint_of_nodup_append hsplit hmem ?_
  rw [List.drop_eq_getElem_cons hn]
  exact List.mem_cons_self ..

end UnorderedMap

/-! ## Pages -/

/-- The pages of an enumeration, one after the other, are all of it. -/
theorem flatMap_pages (n limit pages : ℕ) :
    (List.range pages).flatMap (fun page =>
      List.Ico (page * limit) (min n (page * limit + limit))) = List.range (min n (pages * limit)) := by
  induction pages with
  | zero => simp
  | succ pages ih =>
    rw [List.range_succ, List.flatMap_append, ih, List.flatMap_singleton, Nat.succ_mul]
    rw [← List.Ico.zero_bot, ← List.Ico.zero_bot]
    by_cases hn : n ≤ pages * limit
    · rw [Nat.min_eq_left hn, Nat.min_eq_left (hn.trans (Nat.le_add_right _ _)),
        List.Ico.eq_nil_of_le hn, List.append_nil]
    · rw [Nat.min_eq_right (Nat.le_of_not_le hn)]
      exact List.Ico.append_consecutive (Nat.zero_le _) (by omega)

/-! ## Folds without order -/

section Folds

variable {α β : Type} {f : β → α → β} {l l' : List α}

/-- Steps that were made need not be made again. -/
theorem foldl_of_subset (hcomm : ∀ x ∈ l, ∀ y ∈ l, ∀ b, f (f b x) y = f (f b y) x)
    (hidem : ∀ x ∈ l, ∀ b, f (f b x) x = f b x) (h : ∀ x ∈ l', x ∈ l) (b : β) :
    l'.foldl f (l.foldl f b) = l.foldl f b := by
  induction l' with
  | nil => rfl
  | cons x l' ih =>
    rw [List.forall_mem_cons] at h
    obtain ⟨s, t, rfl⟩ := List.append_of_mem h.1
    have hlast : (s ++ x :: t).foldl f b = (s ++ t ++ [x]).foldl f b := by
      refine List.Perm.foldl_eq' ?_ hcomm b
      rw [List.append_assoc]
      exact (List.perm_append_singleton x t).symm.append_left s
    have hagain : f ((s ++ x :: t).foldl f b) x = (s ++ x :: t).foldl f b := by
      rw [hlast, List.foldl_append, List.foldl_cons, List.foldl_nil, hidem x h.1]
    rw [List.foldl_cons, hagain]
    exact ih h.2

/-- **A fold without order.** Steps that commute, and that need not be made twice, depend on the
elements alone. -/
theorem foldl_eq_of_mem_iff (hcomm : ∀ x ∈ l, ∀ y ∈ l, ∀ b, f (f b x) y = f (f b y) x)
    (hidem : ∀ x ∈ l, ∀ b, f (f b x) x = f b x) (h : ∀ x, x ∈ l' ↔ x ∈ l) (b : β) :
    l'.foldl f b = l.foldl f b := by
  have hcomm' : ∀ x ∈ l', ∀ y ∈ l', ∀ b, f (f b x) y = f (f b y) x :=
    fun x hx y hy => hcomm x ((h x).mp hx) y ((h y).mp hy)
  have hidem' : ∀ x ∈ l', ∀ b, f (f b x) x = f b x := fun x hx => hidem x ((h x).mp hx)
  have hboth : ∀ x ∈ l' ++ l, ∀ y ∈ l' ++ l, ∀ b, f (f b x) y = f (f b y) x := by
    simp only [List.mem_append, h, or_self]
    exact hcomm
  calc l'.foldl f b
      = l.foldl f (l'.foldl f b) :=
        (foldl_of_subset hcomm' hidem' (fun x hx => (h x).mpr hx) b).symm
    _ = (l' ++ l).foldl f b := List.foldl_append.symm
    _ = (l ++ l').foldl f b := List.perm_append_comm.foldl_eq' hboth b
    _ = l'.foldl f (l.foldl f b) := List.foldl_append
    _ = l.foldl f b := foldl_of_subset hcomm hidem (fun x hx => (h x).mp hx) b

end Folds

end Foundation
