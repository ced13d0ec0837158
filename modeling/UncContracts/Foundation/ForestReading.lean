import UncContracts.Foundation.KeyedForest

/-!
# Reading paths in a forest

A path of keys leads through nodes to an entry. A node may have a value of its own, under a key that
is kept for it; a path to a node reads this value, and a path to a value may go on with the key.

## Main definitions

* `Forest.read`: the entry that a path leads to

## Main results

* `Forest.Grown.read_link`: what is read stays when a value becomes the own value of a new node
* `Forest.Writes.read_of_child`: writes below a child change what is read under its key alone
-/

namespace Foundation

open HasTarget

namespace Forest

variable {κ ν : Type} [HasTarget ν] [DecidableEq κ]

/-- The entry that a path leads to. A node is read by its own value, under the key `e`. -/
def read (F : Forest κ ν) (e : κ) : ℕ → List κ → Option ν
  | n, [] => F.entry n e
  | n, k :: path =>
    match F.entry n k with
    | none => none
    | some v =>
      match target v with
      | some m => read F e m path
      | none => if ∀ j ∈ path, j = e then some v else none

section Read

variable {F G : Forest κ ν} {e k : κ} {v : ν} {m n r : ℕ} {path : List κ} {ok : Prop} {W : ℕ → Prop}
  {K L : κ → Prop}

theorem read_nil (F : Forest κ ν) (e : κ) (n : ℕ) : F.read e n [] = F.entry n e := rfl

theorem read_cons_of_none (h : F.entry n k = none) : F.read e n (k :: path) = none := by
  simp [read, h]

theorem read_cons_of_target (h : F.entry n k = some v) (hv : target v = some m) :
    F.read e n (k :: path) = F.read e m path := by
  simp [read, h, hv]

theorem read_cons_of_value (h : F.entry n k = some v) (hv : target v = none) :
    F.read e n (k :: path) = if ∀ j ∈ path, j = e then some v else none := by
  simp [read, h, hv]

/-- What is read under a key depends on the entry and on the nodes below it. -/
theorem read_cons_congr (hentry : G.entry n k = F.entry n k)
    (hbelow : ∀ v m, F.entry n k = some v → target v = some m →
      G.read e m path = F.read e m path) :
    G.read e n (k :: path) = F.read e n (k :: path) := by
  cases h : F.entry n k with
  | none => rw [read_cons_of_none h, read_cons_of_none (hentry.trans h)]
  | some v =>
    cases hv : target v with
    | none => rw [read_cons_of_value h hv, read_cons_of_value (hentry.trans h) hv]
    | some m =>
      rw [read_cons_of_target h hv, read_cons_of_target (hentry.trans h) hv]
      exact hbelow v m h hv

/-- What is read from a node depends on the nodes below it. -/
theorem read_congr (h : ∀ m, F.Below n m → ∀ k, G.entry m k = F.entry m k) (path : List κ) :
    G.read e n path = F.read e n path := by
  induction path generalizing n with
  | nil => exact h n (.refl F n) e
  | cons k path ih =>
    refine read_cons_congr (h n (.refl F n) k) ?_
    intro v m hentry hv
    refine ih fun t ht => h t ?_
    exact Relation.ReflTransGen.head ⟨k, v, hentry, hv⟩ ht

/-- What is read stays when a node is made under a key, with the value that was there as its own. -/
theorem Grown.read_link (hF : F.Grown) (hn : n < F.count) (hk : k ≠ e) (hfree : F.Free n k)
    (hv : target v = some F.count) (new : κ → Option ν)
    (hnew : ∀ j, new j = if j = e then F.entry n k else none) (hm : m < F.count) (path : List κ) :
    (F.link n k v new).read e m path = F.read e m path := by
  have hold : ∀ m j, m < F.count → ¬ (m = n ∧ j = k) →
      (F.link n k v new).entry m j = F.entry m j := by
    intro m j hm hne
    simp only [Forest.link, if_neg hm.ne, if_neg hne]
  induction path generalizing m with
  | nil => exact hold m e hm fun heq => hk heq.2.symm
  | cons j path ih =>
    by_cases heq : m = n ∧ j = k
    · obtain ⟨rfl, rfl⟩ := heq
      have hlink : (F.link m j v new).entry m j = some v := by simp [Forest.link, hm.ne]
      have hown : ∀ i, (F.link m j v new).entry F.count i = if i = e then F.entry m j else none := by
        intro i
        simp only [Forest.link, if_true, hnew]
      rw [read_cons_of_target hlink hv]
      cases path with
      | nil =>
        rw [read_nil, hown, if_pos rfl]
        cases h : F.entry m j with
        | none => rw [read_cons_of_none h]
        | some u => rw [read_cons_of_value h (hfree u h), if_pos (by simp)]
      | cons i path =>
        by_cases hi : i = e
        · subst hi
          have hi := hown i
          rw [if_pos rfl] at hi
          cases h : F.entry m j with
          | none => rw [read_cons_of_none h, read_cons_of_none (hi.trans h)]
          | some u =>
            rw [read_cons_of_value h (hfree u h), read_cons_of_value (hi.trans h) (hfree u h)]
            simp only [List.mem_cons, forall_eq_or_imp, true_and]
        · rw [read_cons_of_none ((hown i).trans (if_neg hi))]
          cases h : F.entry m j with
          | none => rw [read_cons_of_none h]
          | some u =>
            rw [read_cons_of_value h (hfree u h), if_neg]
            intro hall
            exact hi (hall i (List.mem_cons_self ..))
    · refine read_cons_congr (hold m j hm heq) ?_
      intro u t hentry ht
      exact ih (hF.target_lt m j u t hentry ht)

/-- Writes below a node change what is read from its parent under its key alone. -/
theorem Writes.read_of_child (h : F.Writes r ok W K L G) (hF : F.Grown) (hr : r < F.count)
    (hentry : F.entry n k = some v) (hv : target v = some r) :
    (∀ path, G.read e n (k :: path) = G.read e r path) ∧
      ∀ path, path.head? ≠ some k → G.read e n path = F.read e n path := by
  have hG := h.grown hF hr
  have hkept := h.entry_of_target hF hr
  have hentry' : G.entry n k = some v := hkept n k v r hentry hv
  have hn : ∀ j, G.entry n j = F.entry n j := by
    intro j
    refine h.entry_eq hF hr fun hbelow => ?_
    exact absurd (hG.le_of_below hbelow) (Nat.not_le.mpr (hF.lt_target n k v r hentry hv))
  refine ⟨fun path => read_cons_of_target hentry' hv, ?_⟩
  intro path hpath
  cases path with
  | nil => exact hn e
  | cons j path =>
    refine read_cons_congr (hn j) ?_
    intro u t hj hu
    refine read_congr ?_ path
    intro m hm i
    refine h.entry_eq hF hr fun hbelow => ?_
    -- The node would lie below two children of one node.
    have hj' := hkept n j u t hj hu
    have heq : r = t := by
      rcases hG.below_total hbelow (hm.mono hkept) with hrt | htr
      · exact hG.eq_of_siblings hentry' hv hj' hu hrt
      · exact (hG.eq_of_siblings hj' hu hentry' hv htr).symm
    subst heq
    exact hpath (congrArg some (hG.unique n j u n k v r hj' hu hentry' hv).2)

end Read

end Forest

end Foundation
