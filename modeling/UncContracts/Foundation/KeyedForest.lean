import Mathlib.Algebra.Order.Ring.Nat
import Mathlib.Logic.Relation
import Mathlib.Order.Basic

/-!
# Forests with keyed entries

Numbered nodes with entries under keys. An entry is a value or leads to another node. Nodes are
numbered in the order in which they are made, and a node is made for one entry, so that the nodes
form a forest. A write puts a value under a key, or makes a node for it; entries that lead to a
node stay for ever. Writes are allowed below some root, to those who have the root or some node on
the way.

## Main definitions

* `Forest`, `Forest.Below`: entries, and the nodes below a node
* `Forest.Grown`: the numbering of a forest that was grown by writes
* `Forest.Writes`: the forests that allowed writes lead to
* `Forest.Leads`: a path of keys leads to a node

## Main results

* `Forest.Writes.grown`: writes grow the forest
* `Forest.Writes.entry_of_target`: entries that lead to a node stay
* `Forest.Writes.allowed`: what differs after writes was allowed
* `Forest.Writes.below_of_new`: nodes that are new after writes are below their root
* `Forest.Grown.below_total`: two nodes above a third are above one another
* `Forest.Grown.path_unique`: one path leads to a node
* `Forest.Rooted.leads_of_kept`: the path to a node is never another one
-/

namespace Foundation

/-- Entries that may lead to a node. -/
class HasTarget (ν : Type) where
  /-- The node that an entry leads to. -/
  target : ν → Option ℕ

open HasTarget

/-- Entries under keys of numbered nodes, with the number of the next node. -/
@[ext] structure Forest (κ ν : Type) where
  entry : ℕ → κ → Option ν
  count : ℕ

namespace Forest

variable {κ ν : Type} [HasTarget ν]

/-- An entry of a node leads to another one. -/
def Child (F : Forest κ ν) (m n : ℕ) : Prop := ∃ k v, F.entry m k = some v ∧ target v = some n

/-- A node lies below another one, or is it. -/
def Below (F : Forest κ ν) : ℕ → ℕ → Prop := Relation.ReflTransGen F.Child

/-- No node is under a key. -/
def Free (F : Forest κ ν) (n : ℕ) (k : κ) : Prop := ∀ v, F.entry n k = some v → target v = none

/-- Nodes are numbered in the order in which they are made, each for one entry. -/
structure Grown (F : Forest κ ν) : Prop where
  lt_target : ∀ m k v n, F.entry m k = some v → target v = some n → m < n
  target_lt : ∀ m k v n, F.entry m k = some v → target v = some n → n < F.count
  unique : ∀ m k v m' k' v' n, F.entry m k = some v → target v = some n →
    F.entry m' k' = some v' → target v' = some n → m = m' ∧ k = k'
  fresh : ∀ n k, F.count ≤ n → F.entry n k = none

/-- A node is below the root, and the root or some node on the way is in hand. -/
def Allowed (F : Forest κ ν) (r : ℕ) (ok : Prop) (W : ℕ → Prop) (n : ℕ) : Prop :=
  F.Below r n ∧ (ok ∨ ∃ m, W m ∧ F.Below r m ∧ F.Below m n)

/-! ## Nodes below nodes -/

section Below

variable {F G : Forest κ ν} {m m' n r : ℕ} {ok : Prop} {W : ℕ → Prop}

theorem Below.refl (F : Forest κ ν) (n : ℕ) : F.Below n n := Relation.ReflTransGen.refl

theorem Below.trans (h : F.Below m n) (h' : F.Below n r) : F.Below m r :=
  Relation.ReflTransGen.trans h h'

theorem Below.mono (h : F.Below m n)
    (hmono : ∀ m k v n, F.entry m k = some v → target v = some n → G.entry m k = some v) :
    G.Below m n := by
  refine Relation.ReflTransGen.mono ?_ _ _ h
  rintro a b ⟨k, v, hentry, htarget⟩
  exact ⟨k, v, hmono a k v b hentry htarget, htarget⟩

theorem Allowed.mono (h : F.Allowed r ok W n)
    (hmono : ∀ m k v n, F.entry m k = some v → target v = some n → G.entry m k = some v) :
    G.Allowed r ok W n := by
  obtain ⟨hbelow, hok⟩ := h
  refine ⟨hbelow.mono hmono, ?_⟩
  rcases hok with hok | ⟨m, hm, hrm, hmn⟩
  · exact .inl hok
  · exact .inr ⟨m, hm, hrm.mono hmono, hmn.mono hmono⟩

theorem Grown.le_of_below (hF : F.Grown) (h : F.Below m n) : m ≤ n := by
  induction h with
  | refl => exact le_rfl
  | tail _ hchild ih =>
    obtain ⟨k, v, hentry, htarget⟩ := hchild
    exact ih.trans (hF.lt_target _ _ _ _ hentry htarget).le

theorem Grown.lt_count_of_below (hF : F.Grown) (h : F.Below m n) (hm : m < F.count) :
    n < F.count := by
  cases h with
  | refl => exact hm
  | tail _ hchild =>
    obtain ⟨k, v, hentry, htarget⟩ := hchild
    exact hF.target_lt _ _ _ _ hentry htarget

/-- Two nodes above a third are above one another. -/
theorem Grown.below_total (hF : F.Grown) (h : F.Below m n) (h' : F.Below m' n) :
    F.Below m m' ∨ F.Below m' m := by
  induction h generalizing m' with
  | refl => exact .inr h'
  | tail hbelow hchild ih =>
    obtain ⟨k, v, hentry, htarget⟩ := hchild
    cases h' with
    | refl => exact .inl (hbelow.tail ⟨k, v, hentry, htarget⟩)
    | tail hbelow' hchild' =>
      obtain ⟨k', v', hentry', htarget'⟩ := hchild'
      obtain ⟨rfl, -⟩ := hF.unique _ _ _ _ _ _ _ hentry htarget hentry' htarget'
      exact ih hbelow'

/-- Nodes with the same parent are above one another only if they are the same. -/
theorem Grown.eq_of_siblings (hF : F.Grown) {k k' : κ} {v v' : ν} {a b : ℕ}
    (ha : F.entry m k = some v) (hva : target v = some a) (hb : F.entry m k' = some v')
    (hvb : target v' = some b) (h : F.Below a b) : a = b := by
  cases h with
  | refl => rfl
  | tail hbelow hchild =>
    obtain ⟨j, u, hentry, htarget⟩ := hchild
    obtain ⟨rfl, -⟩ := hF.unique _ _ _ _ _ _ _ hb hvb hentry htarget
    have hle := hF.le_of_below hbelow
    have hlt := hF.lt_target _ _ _ _ ha hva
    omega

end Below

/-! ## Writes -/

variable [DecidableEq κ]

/-- The forest with a value under a key. -/
def put (F : Forest κ ν) (n : ℕ) (k : κ) (v : ν) : Forest κ ν where
  entry m j := if m = n ∧ j = k then some v else F.entry m j
  count := F.count

/-- The forest with a new node under a key, which has some entries. -/
def link (F : Forest κ ν) (n : ℕ) (k : κ) (v : ν) (new : κ → Option ν) : Forest κ ν where
  entry m j := if m = F.count then new j else if m = n ∧ j = k then some v else F.entry m j
  count := F.count + 1

/-- The forests that writes lead to, which are allowed below a root. Entries are written under some
keys, and new nodes are made under some of them. -/
inductive Writes (r : ℕ) (ok : Prop) (W : ℕ → Prop) (K L : κ → Prop) (F : Forest κ ν) :
    Forest κ ν → Prop
  | refl : Writes r ok W K L F F
  | put {G : Forest κ ν} {n : ℕ} {k : κ} {v : ν} (h : Writes r ok W K L F G)
    (hallowed : G.Allowed r ok W n) (hk : K k) (hfree : G.Free n k) (hv : target v = none) :
    Writes r ok W K L F (G.put n k v)
  | link {G : Forest κ ν} {n : ℕ} {k : κ} {v : ν} {new : κ → Option ν} (h : Writes r ok W K L F G)
    (hallowed : G.Allowed r ok W n) (hk : K k ∧ L k) (hfree : G.Free n k)
    (hv : target v = some G.count) (hnew : ∀ j u, new j = some u → K j ∧ target u = none) :
    Writes r ok W K L F (G.link n k v new)

/-! ## What writes keep -/

section Writes

variable {F G H : Forest κ ν} {m n r r' : ℕ} {k : κ} {v : ν} {ok ok' : Prop} {W : ℕ → Prop}
  {K L : κ → Prop} {new : κ → Option ν}

theorem put_entry_of_target (hfree : F.Free n k) (m : ℕ) (j : κ) (u : ν) (t : ℕ)
    (hentry : F.entry m j = some u) (htarget : target u = some t) :
    (F.put n k v).entry m j = some u := by
  have hne : ¬ (m = n ∧ j = k) := by
    rintro ⟨rfl, rfl⟩
    cases (hfree u hentry).symm.trans htarget
  simp only [put, if_neg hne]
  exact hentry

theorem Grown.link_entry_of_target (hF : F.Grown) (hfree : F.Free n k) (m : ℕ) (j : κ) (u : ν)
    (t : ℕ) (hentry : F.entry m j = some u) (htarget : target u = some t) :
    (F.link n k v new).entry m j = some u := by
  have hne : ¬ (m = n ∧ j = k) := by
    rintro ⟨rfl, rfl⟩
    cases (hfree u hentry).symm.trans htarget
  have hcount : m ≠ F.count := by
    rintro rfl
    cases (hF.fresh F.count j le_rfl).symm.trans hentry
  simp only [link, if_neg hcount, if_neg hne]
  exact hentry

/-- The new node lies below the one that leads to it. -/
theorem below_link (hn : n < F.count) (hv : target v = some F.count) :
    (F.link n k v new).Below n F.count := by
  refine .single ⟨k, v, ?_, hv⟩
  simp [Forest.link, hn.ne]

theorem Grown.put (hF : F.Grown) (hn : n < F.count) (hfree : F.Free n k)
    (hv : target v = none) : (F.put n k v).Grown := by
  have hold : ∀ m j u t, (F.put n k v).entry m j = some u → target u = some t →
      F.entry m j = some u := by
    intro m j u t hentry htarget
    simp only [Forest.put] at hentry
    split at hentry
    · cases hentry
      cases hv.symm.trans htarget
    · exact hentry
  refine ⟨?_, ?_, ?_, ?_⟩
  · intro m j u t hentry htarget
    exact hF.lt_target m j u t (hold m j u t hentry htarget) htarget
  · intro m j u t hentry htarget
    exact hF.target_lt m j u t (hold m j u t hentry htarget) htarget
  · intro m j u m' j' u' t hentry htarget hentry' htarget'
    exact hF.unique m j u m' j' u' t (hold m j u t hentry htarget) htarget
      (hold m' j' u' t hentry' htarget') htarget'
  · intro m j hm
    have hne : ¬ (m = n ∧ j = k) := by
      rintro ⟨rfl, -⟩
      exact absurd hn (Nat.not_lt.mpr hm)
    simp only [Forest.put, if_neg hne]
    exact hF.fresh m j hm

theorem Grown.link (hF : F.Grown) (hn : n < F.count) (hfree : F.Free n k)
    (hv : target v = some F.count) (hnew : ∀ j u, new j = some u → target u = none) :
    (F.link n k v new).Grown := by
  have hold : ∀ m j u t, (F.link n k v new).entry m j = some u → target u = some t →
      (m = n ∧ j = k ∧ t = F.count) ∨ (F.entry m j = some u ∧ t < F.count) := by
    intro m j u t hentry htarget
    simp only [Forest.link] at hentry
    split at hentry
    · cases (hnew j u hentry).symm.trans htarget
    · split at hentry
      · next heq =>
        cases hentry
        cases hv.symm.trans htarget
        exact .inl ⟨heq.1, heq.2, rfl⟩
      · exact .inr ⟨hentry, hF.target_lt m j u t hentry htarget⟩
  refine ⟨?_, ?_, ?_, ?_⟩
  · intro m j u t hentry htarget
    rcases hold m j u t hentry htarget with ⟨rfl, -, rfl⟩ | ⟨hentry', -⟩
    · exact hn
    · exact hF.lt_target m j u t hentry' htarget
  · intro m j u t hentry htarget
    rcases hold m j u t hentry htarget with ⟨-, -, rfl⟩ | ⟨-, hlt⟩
    · exact Nat.lt_succ_self _
    · exact Nat.lt_succ_of_lt hlt
  · intro m j u m' j' u' t hentry htarget hentry' htarget'
    rcases hold m j u t hentry htarget with ⟨rfl, rfl, rfl⟩ | ⟨hm, hlt⟩
    · rcases hold m' j' u' _ hentry' htarget' with ⟨rfl, rfl, -⟩ | ⟨-, hlt⟩
      · exact ⟨rfl, rfl⟩
      · exact absurd hlt (Nat.lt_irrefl _)
    · rcases hold m' j' u' t hentry' htarget' with ⟨-, -, rfl⟩ | ⟨hm', -⟩
      · exact absurd hlt (Nat.lt_irrefl _)
      · exact hF.unique m j u m' j' u' t hm htarget hm' htarget'
  · intro m j hm
    have hm : F.count + 1 ≤ m := hm
    have hne : ¬ (m = n ∧ j = k) := by
      rintro ⟨rfl, -⟩
      omega
    simp only [Forest.link, if_neg (Nat.ne_of_gt hm), if_neg hne]
    exact hF.fresh m j (Nat.le_of_succ_le hm)

/-- Writes grow the forest, and the entries that lead to a node stay. -/
theorem Writes.kept (h : Writes r ok W K L F G) (hF : F.Grown) (hr : r < F.count) :
    G.Grown ∧ F.count ≤ G.count ∧ ∀ m k v n, F.entry m k = some v → target v = some n →
      G.entry m k = some v := by
  induction h with
  | refl => exact ⟨hF, le_rfl, fun _ _ _ _ hentry _ => hentry⟩
  | put h hallowed hk hfree hv ih =>
    obtain ⟨hG, hcount, hentries⟩ := ih
    have hn := hG.lt_count_of_below hallowed.1 (hr.trans_le hcount)
    refine ⟨hG.put hn hfree hv, hcount, ?_⟩
    intro m k v n hentry htarget
    exact put_entry_of_target hfree m k v n (hentries m k v n hentry htarget) htarget
  | link h hallowed hk hfree hv hnew ih =>
    obtain ⟨hG, hcount, hentries⟩ := ih
    have hn := hG.lt_count_of_below hallowed.1 (hr.trans_le hcount)
    refine ⟨hG.link hn hfree hv fun j u hu => (hnew j u hu).2, hcount.trans (Nat.le_succ _), ?_⟩
    intro m k v n hentry htarget
    exact hG.link_entry_of_target hfree m k v n (hentries m k v n hentry htarget) htarget

theorem Writes.grown (h : Writes r ok W K L F G) (hF : F.Grown) (hr : r < F.count) : G.Grown :=
  (h.kept hF hr).1

theorem Writes.count_le (h : Writes r ok W K L F G) (hF : F.Grown) (hr : r < F.count) :
    F.count ≤ G.count :=
  (h.kept hF hr).2.1

theorem Writes.entry_of_target (h : Writes r ok W K L F G) (hF : F.Grown) (hr : r < F.count) :
    ∀ m k v n, F.entry m k = some v → target v = some n → G.entry m k = some v :=
  (h.kept hF hr).2.2

theorem Writes.trans (h : Writes r ok W K L F G) (h' : Writes r ok W K L G H) : Writes r ok W K L F H := by
  induction h' with
  | refl => exact h
  | put _ hallowed hk hfree hv ih => exact .put ih hallowed hk hfree hv
  | link _ hallowed hk hfree hv hnew ih => exact .link ih hallowed hk hfree hv hnew

/-- Who has the root may write what anyone may. -/
theorem Writes.of_root (h : Writes r ok W K L F G) (W' : ℕ → Prop) :
    Writes r True W' K L F G := by
  induction h with
  | refl => exact .refl
  | put _ hallowed hk hfree hv ih => exact .put ih ⟨hallowed.1, .inl trivial⟩ hk hfree hv
  | link _ hallowed hk hfree hv hnew ih => exact .link ih ⟨hallowed.1, .inl trivial⟩ hk hfree hv hnew

/-- Writes below a node that is itself below the root. -/
theorem Writes.of_below (h : Writes r' ok' W K L F G) (hF : F.Grown) (hr : r < F.count)
    (hbelow : F.Below r r') (hok : ok' → ok ∨ ∃ m, W m ∧ F.Below r m ∧ F.Below m r') :
    Writes r ok W K L F G := by
  have hr' := hF.lt_count_of_below hbelow hr
  have hallowed : ∀ {G : Forest κ ν} {n : ℕ}, Writes r' ok' W K L F G → G.Allowed r' ok' W n →
      G.Allowed r ok W n := by
    rintro G n hwrites ⟨hn, hin⟩
    have hmono := hwrites.entry_of_target hF hr'
    refine ⟨(hbelow.mono hmono).trans hn, ?_⟩
    rcases hin with hok' | ⟨m, hm, hrm, hmn⟩
    · rcases hok hok' with hok | ⟨m, hm, hrm, hmr⟩
      · exact .inl hok
      · exact .inr ⟨m, hm, hrm.mono hmono, (hmr.mono hmono).trans hn⟩
    · exact .inr ⟨m, hm, (hbelow.mono hmono).trans hrm, hmn⟩
  induction h with
  | refl => exact .refl
  | put h hin hk hfree hv ih => exact .put ih (hallowed h hin) hk hfree hv
  | link h hin hk hfree hv hnew ih => exact .link ih (hallowed h hin) hk hfree hv hnew

/-- What differs after writes was allowed. -/
theorem Writes.allowed (h : Writes r ok W K L F G) (hF : F.Grown) (hr : r < F.count)
    (hne : G.entry n k ≠ F.entry n k) : G.Allowed r ok W n := by
  induction h with
  | refl => exact absurd rfl hne
  | @put G a j u h hallowed hk hfree hv ih =>
    by_cases heq : n = a ∧ k = j
    · obtain ⟨rfl, rfl⟩ := heq
      exact hallowed.mono (put_entry_of_target hfree)
    · refine (ih ?_).mono (put_entry_of_target hfree)
      simpa only [Forest.put, if_neg heq] using hne
  | @link G a j u new h hallowed hk hfree hv hnew ih =>
    have hG := h.grown hF hr
    by_cases hcount : n = G.count
    · subst hcount
      have ha : (G.link a j u new).Allowed r ok W a :=
        hallowed.mono (hG.link_entry_of_target hfree)
      have hlt := hG.lt_count_of_below hallowed.1 (hr.trans_le (h.count_le hF hr))
      have hchild : (G.link a j u new).Below a G.count := below_link hlt hv
      refine ⟨ha.1.trans hchild, ?_⟩
      rcases ha.2 with hok | ⟨m, hm, hrm, hma⟩
      · exact .inl hok
      · exact .inr ⟨m, hm, hrm, hma.trans hchild⟩
    · by_cases heq : n = a ∧ k = j
      · obtain ⟨rfl, rfl⟩ := heq
        exact hallowed.mono (hG.link_entry_of_target hfree)
      · refine (ih ?_).mono (hG.link_entry_of_target hfree)
        simpa only [Forest.link, if_neg hcount, if_neg heq] using hne

/-- What is not below the root stays. -/
theorem Writes.entry_eq (h : Writes r ok W K L F G) (hF : F.Grown) (hr : r < F.count)
    (hn : ¬ G.Below r n) : G.entry n k = F.entry n k := by
  by_contra hne
  exact hn (h.allowed hF hr hne).1

/-- What is numbered before the root stays. -/
theorem Writes.entry_eq_of_lt (h : Writes r ok W K L F G) (hF : F.Grown) (hr : r < F.count)
    (hn : n < r) : G.entry n k = F.entry n k := by
  refine h.entry_eq hF hr ?_
  intro hbelow
  exact absurd ((h.grown hF hr).le_of_below hbelow) (Nat.not_le.mpr hn)

/-- A key that may have no node has none after writes. -/
theorem Writes.free (h : Writes r ok W K L F G) (hk : ¬ L k) (hfree : ∀ n, F.Free n k) :
    ∀ n, G.Free n k := by
  induction h with
  | refl => exact hfree
  | put _ _ _ _ hv ih =>
    intro n u hentry
    simp only [Forest.put] at hentry
    split at hentry
    · cases hentry
      exact hv
    · exact ih n u hentry
  | link _ _ hL _ _ hnew ih =>
    intro n u hentry
    simp only [Forest.link] at hentry
    split at hentry
    · exact (hnew _ u hentry).2
    · split at hentry
      · next heq => exact absurd (heq.2 ▸ hL.2) hk
      · exact ih n u hentry

/-- The keys of a forest stay among those that may be written. -/
theorem Writes.keys (h : Writes r ok W K L F G) (hF : ∀ n k v, F.entry n k = some v → K k) :
    ∀ n k v, G.entry n k = some v → K k := by
  induction h with
  | refl => exact hF
  | put _ _ hk _ _ ih =>
    intro n j u hentry
    simp only [Forest.put] at hentry
    split at hentry
    · next heq => exact heq.2 ▸ hk
    · exact ih n j u hentry
  | link _ _ hk _ _ hnew ih =>
    intro n j u hentry
    simp only [Forest.link] at hentry
    split at hentry
    · exact (hnew j u hentry).1
    · split at hentry
      · next heq => exact heq.2 ▸ hk.1
      · exact ih n j u hentry

/-- Every node is below the first one. -/
def Rooted (F : Forest κ ν) : Prop := ∀ n, n < F.count → F.Below 0 n

/-- Writes keep every node below the first one. -/
theorem Writes.rooted (h : Writes r ok W K L F G) (hF : F.Grown) (hr : r < F.count)
    (hrooted : F.Rooted) : G.Rooted := by
  induction h with
  | refl => exact hrooted
  | @put G a j u h hallowed hk hfree hv ih =>
    intro m hm
    exact (ih m hm).mono (put_entry_of_target hfree)
  | @link G a j u new h hallowed hk hfree hv hnew ih =>
    have hG := h.grown hF hr
    have ha := hG.lt_count_of_below hallowed.1 (hr.trans_le (h.count_le hF hr))
    intro m hm
    rcases Nat.lt_succ_iff_lt_or_eq.mp hm with hm | rfl
    · exact (ih m hm).mono (hG.link_entry_of_target hfree)
    · exact ((ih a ha).mono (hG.link_entry_of_target hfree)).trans (below_link ha hv)

/-- A node that is new after writes is below the root of the writes. -/
theorem Writes.below_of_new (h : Writes r ok W K L F G) (hF : F.Grown) (hr : r < F.count) :
    ∀ m, F.count ≤ m → m < G.count → G.Below r m := by
  induction h with
  | refl =>
    intro m hle hlt
    exact absurd hlt (Nat.not_lt.mpr hle)
  | @put G a j u h hallowed hk hfree hv ih =>
    intro m hle hlt
    exact (ih m hle hlt).mono (put_entry_of_target hfree)
  | @link G a j u new h hallowed hk hfree hv hnew ih =>
    have hG := h.grown hF hr
    have ha := hG.lt_count_of_below hallowed.1 (hr.trans_le (h.count_le hF hr))
    intro m hle hlt
    rcases Nat.lt_succ_iff_lt_or_eq.mp hlt with hlt | rfl
    · exact (ih m hle hlt).mono (hG.link_entry_of_target hfree)
    · exact (hallowed.1.mono (hG.link_entry_of_target hfree)).trans (below_link ha hv)

end Writes

omit [DecidableEq κ] in
/-- A node that there was is below the same nodes as before, if entries that lead to nodes stay. -/
theorem Rooted.below_of_kept {F G : Forest κ ν} (hrooted : F.Rooted) (hG : G.Grown)
    (hkept : ∀ m k v n, F.entry m k = some v → target v = some n → G.entry m k = some v)
    {r n : ℕ} (h : G.Below r n) (hn : n < F.count) : F.Below r n := by
  induction h with
  | refl => exact .refl F r
  | @tail p n hbelow hchild ih =>
    obtain ⟨k, v, hentry, htarget⟩ := hchild
    rcases Relation.ReflTransGen.cases_tail (hrooted n hn) with rfl | ⟨p', -, k', v', hentry', htarget'⟩
    · exact absurd (hG.lt_target _ _ _ _ hentry htarget) (Nat.not_lt_zero _)
    · obtain ⟨rfl, rfl⟩ := hG.unique _ _ _ _ _ _ _ hentry htarget (hkept _ _ _ _ hentry' htarget')
        htarget'
      have hlt := hG.lt_target _ _ _ _ hentry htarget
      exact (ih (hlt.trans hn)).tail ⟨k, v', hentry', htarget'⟩

/-! ## Paths to nodes -/

/-- A path of keys leads from a node to another one. -/
inductive Leads (F : Forest κ ν) : ℕ → List κ → ℕ → Prop
  | refl (n : ℕ) : Leads F n [] n
  | step {n m t : ℕ} {k : κ} {v : ν} {path : List κ} (hentry : F.entry n k = some v)
    (hv : target v = some t) (h : Leads F t path m) : Leads F n (k :: path) m

section Leads

variable {F G : Forest κ ν} {m m' n r : ℕ} {path path' : List κ}

omit [DecidableEq κ]

theorem below_of_leads (h : F.Leads n path m) : F.Below n m := by
  induction h with
  | refl n => exact .refl F n
  | step hentry hv _ ih => exact .head ⟨_, _, hentry, hv⟩ ih

theorem Leads.mono (h : F.Leads n path m)
    (hmono : ∀ m k v n, F.entry m k = some v → target v = some n → G.entry m k = some v) :
    G.Leads n path m := by
  induction h with
  | refl n => exact .refl n
  | step hentry hv _ ih => exact .step (hmono _ _ _ _ hentry hv) hv ih

/-- A path leads to every node below. -/
theorem Below.exists_leads (h : F.Below n m) : ∃ path, F.Leads n path m := by
  induction h using Relation.ReflTransGen.head_induction_on with
  | refl => exact ⟨[], .refl m⟩
  | head hchild _ ih =>
    obtain ⟨k, v, hentry, hv⟩ := hchild
    obtain ⟨path, hpath⟩ := ih
    exact ⟨k :: path, .step hentry hv hpath⟩

/-- One path leads to a node. -/
theorem Grown.path_unique (hF : F.Grown) (h : F.Leads n path m) (h' : F.Leads n path' m) :
    path = path' := by
  induction h generalizing path' with
  | refl n =>
    cases h' with
    | refl => rfl
    | step hentry hv h' =>
      exact absurd (hF.lt_target _ _ _ _ hentry hv)
        (Nat.not_lt.mpr (hF.le_of_below (below_of_leads h')))
  | @step n m t k v path hentry hv h ih =>
    cases h' with
    | refl =>
      exact absurd (hF.lt_target _ _ _ _ hentry hv)
        (Nat.not_lt.mpr (hF.le_of_below (below_of_leads h)))
    | @step _ _ t' k' v' path' hentry' hv' h' =>
      -- The first nodes of the two paths are above the same node, and so they are the same.
      have heq : t = t' := by
        rcases hF.below_total (below_of_leads h) (below_of_leads h') with hbelow | hbelow
        · exact hF.eq_of_siblings hentry hv hentry' hv' hbelow
        · exact (hF.eq_of_siblings hentry' hv' hentry hv hbelow).symm
      subst heq
      obtain ⟨-, rfl⟩ := hF.unique _ _ _ _ _ _ _ hentry hv hentry' hv'
      rw [ih h']

/-- The path to a node that there was is the one from before, if entries that lead to nodes stay. -/
theorem Rooted.leads_of_kept (hrooted : F.Rooted) (hG : G.Grown)
    (hkept : ∀ m k v n, F.entry m k = some v → target v = some n → G.entry m k = some v)
    (h : G.Leads r path n) (hn : n < F.count) : F.Leads r path n := by
  obtain ⟨path', hpath'⟩ := (hrooted.below_of_kept hG hkept (below_of_leads h) hn).exists_leads
  rwa [hG.path_unique h (hpath'.mono hkept)]

end Leads

end Forest

end Foundation
