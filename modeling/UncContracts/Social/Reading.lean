import UncContracts.Social.EmptyKeys
import UncContracts.Social.Patterns

/-!
# Reading values

What `get` returns for patterns with default options. Each walk below a node adds the live paths
that match the rest of a pattern, so that patterns that overlap agree on what they share. The objects
that stay empty are removed at the end.

## Main definitions

* `jsonAt`, `IsLeaf`: what an object has at a path
* `stem`: a path without the empty key at its end
* `patternParts`: the parts of a pattern

## Main results

* `adds_of_recursiveGet`: reading below a node adds the live paths that match
* `exists_shown_of_isLeaf`, `exists_isLeaf_of_shown`: the leaves of an object are the live paths that it shows
* `get_leaves`: the leaves of what is read are the live paths that match a pattern
-/

namespace UncContracts.Social

open Foundation HasTarget UnorderedMap

section Walks

variable {c : Contract} {node : Node} {n : NodeId} {key : String} {keys path : List String}
  {steps : ℕ} {res res' : JsonMap} {entry : String × NodeValue}

/-- An entry that leads to a node adds what the rest of the pattern matches below the node. -/
theorem adds_of_nodeEntry (hsound : c.Sound) (hfree : ∀ n, c.forest.Free n EMPTY_KEY)
    (hnode : c.Holds n node) {k : String} {m : NodeId}
    (hentry : node.children.get k = some (.node m)) (hstar : key = RECURSIVE_STAR → keys = [])
    (hfits : FitsFields c.forest n res)
    {recursiveGet : JsonMap → Node → List String → Exec JsonMap}
    (hrec : ∀ m child, n < m → m < c.nodeCount → c.Holds m child → ∀ res res' path,
      path = keys ∨ path = key :: keys → FitsFields c.forest m res →
      recursiveGet res child path = .ok res' → Adds c.forest m (Matches path) res res')
    (h : c.getEntry {} key keys recursiveGet res (k, .node m) = .ok res') :
    Adds c.forest n (fun path => ∃ rest, path = k :: rest ∧
      (key = RECURSIVE_STAR ∨ Matches keys rest)) res res' := by
  have hforest : c.forest.entry n k = some (.node m) := (hnode k).trans hentry
  have hne : ∀ rest s, liveAt c.forest n (k :: rest) = some s → rest ≠ [] := fun rest s hlive =>
    ne_nil_of_liveAt ((liveAt_cons_node hforest).symm.trans hlive)
  obtain ⟨child, hchild, hholds, hlt, hcount⟩ := hsound.exists_child hnode hentry
  have hinner := (fits_innerObject hfits hforest (hfree m)).1
  have hbelow : ∀ inner path, path = keys ∨ path = key :: keys →
      recursiveGet (jsonMapGetInnerObject res k) child path = .ok inner →
      Adds c.forest n (fun p => ∃ rest, p = k :: rest ∧ Matches path rest) res
        (write k (.object inner) res) := by
    intro inner path hpath hwalk
    exact Adds.field hfits hforest (hfree m)
      (hrec m child hlt hcount hholds _ inner path hpath hinner hwalk)
  simp only [Contract.getEntry, hchild, ok_bind] at h
  by_cases hkeys : keys = []
  · subst hkeys
    by_cases hkey : key = RECURSIVE_STAR
    · subst hkey
      simp only [decide_true, or_true, if_true, ne_eq, not_true_eq_false, if_false, pure_bind,
        bind_eq_ok, pure_eq_ok] at h
      obtain ⟨inner, hwalk, rfl⟩ := h
      refine (hbelow inner _ (.inr rfl) hwalk).congr fun path s hlive => ?_
      refine exists_congr fun rest => and_congr_right fun hpath => ?_
      subst hpath
      exact iff_of_true (matches_recursiveStar.mpr (hne rest s hlive)) (.inl rfl)
    · simp only [hkey, decide_false, ne_eq, not_true_eq_false, Bool.false_eq_true, or_self,
        if_false] at h
      have hown : ∀ path s, liveAt c.forest n path = some s → (path = [k, EMPTY_KEY] ↔
          ∃ rest, path = k :: rest ∧ (key = RECURSIVE_STAR ∨ Matches [] rest)) := by
        intro path s hlive
        constructor
        · rintro rfl
          exact ⟨_, rfl, .inr (matches_nil.mpr (.inr rfl))⟩
        · rintro ⟨rest, rfl, hstar | hmatches⟩
          · exact absurd hstar hkey
          · rw [(matches_nil.mp hmatches).resolve_left (hne rest s hlive)]
      cases hvalue : child.children.get EMPTY_KEY with
      | some nodeValue =>
        simp only [hvalue] at h
        exact (adds_of_own hfits hforest ((hholds EMPTY_KEY).trans hvalue) (hfree m) h).congr hown
      | none =>
        simp only [hvalue, pure_eq_ok] at h
        subst h
        refine .refl hfits fun path s hlive hpath => ?_
        rw [(hown path s hlive).mpr hpath, liveAt_cons_node hforest] at hlive
        simp [liveAt, hholds EMPTY_KEY, hvalue] at hlive
  · have hkey : key ≠ RECURSIVE_STAR := fun heq => hkeys (hstar heq)
    simp only [hkeys, hkey, decide_false, ne_eq, not_false_eq_true, true_or, if_true,
      Bool.false_eq_true, if_false, bind_eq_ok, pure_eq_ok, exists_eq_left'] at h
    obtain ⟨inner, hwalk, rfl⟩ := h
    refine (hbelow inner keys (.inl rfl) hwalk).congr fun path s hlive => ?_
    refine exists_congr fun rest => and_congr_right fun _ => ?_
    exact (or_iff_right hkey).symm

/-- An entry without a node adds its path, if the pattern ends with it. -/
theorem adds_of_leafEntry (hnode : c.Holds n node) {k : String} {v : NodeValue}
    (hentry : node.children.get k = some v) (hvalue : target v = none)
    (hstar : key = RECURSIVE_STAR → keys = []) (hfits : FitsFields c.forest n res)
    {recursiveGet : JsonMap → Node → List String → Exec JsonMap}
    (h : c.getEntry {} key keys recursiveGet res (k, v) = .ok res') :
    Adds c.forest n (fun path => ∃ rest, path = k :: rest ∧
      (key = RECURSIVE_STAR ∨ Matches keys rest)) res res' := by
  have hforest : c.forest.entry n k = some v := (hnode k).trans hentry
  have hset : (if keys = [] then jsonMapSetKey {} res k v else pure res) = .ok res' := by
    cases v with
    | node m => cases hvalue
    | value v => exact h
    | deletedEntry blockHeight => exact h
  have hend : ∀ rest s, liveAt c.forest n (k :: rest) = some s → rest = [] := by
    intro rest s hlive
    rcases entry_of_liveAt hlive with ⟨_, -, hrest, -⟩ | ⟨m, hm, -⟩
    · exact hrest
    · cases hforest.symm.trans hm
      cases hvalue
  split at hset
  · next hkeys =>
    subst hkeys
    refine (adds_of_leaf hfits hforest hvalue hset).congr fun path s hlive => ?_
    constructor
    · rintro rfl
      exact ⟨[], rfl, .inr (matches_nil.mpr (.inl rfl))⟩
    · rintro ⟨rest, rfl, -⟩
      rw [hend rest s hlive]
  · next hkeys =>
    cases hset
    refine .refl hfits ?_
    rintro _ s hlive ⟨rest, rfl, hkey | hmatches⟩
    · exact absurd (hstar hkey) hkeys
    · rw [hend rest s hlive] at hmatches
      exact absurd hmatches (not_matches_nil hkeys)

theorem mem_matchedEntries_iff {all : Bool} : entry ∈ node.matchedEntries key all ↔
    node.children.get entry.1 = some entry.2 ∧ (all = true ∨ key = entry.1) := by
  refine ⟨fun h => ⟨mem_matchedEntries h, ?_⟩, ?_⟩
  · unfold Node.matchedEntries at h
    split at h
    · next hall => exact .inl hall
    · split at h
      · obtain rfl := List.mem_singleton.mp h
        exact .inr rfl
      · cases h
  · rintro ⟨hget, hall⟩
    unfold Node.matchedEntries
    split
    · exact UnorderedMap.get_eq_some.mp hget
    · next hnot =>
      obtain rfl := hall.resolve_left hnot
      rw [hget]
      exact List.mem_singleton_self _

/-- A live path matches a pattern through one of the matched entries. -/
theorem matches_iff_matchedEntries (hnode : c.Holds n node) (hstar : key = RECURSIVE_STAR → keys = [])
    {s : String} (hlive : liveAt c.forest n path = some s) :
    (∃ e ∈ node.matchedEntries key (decide (key = STAR) || decide (key = RECURSIVE_STAR)),
      ∃ rest, path = e.1 :: rest ∧ (key = RECURSIVE_STAR ∨ Matches keys rest)) ↔
      Matches (key :: keys) path := by
  simp only [mem_matchedEntries_iff, Bool.or_eq_true, decide_eq_true_eq]
  cases path with
  | nil => cases hlive
  | cons k rest =>
    obtain ⟨v, hentry⟩ : ∃ v, node.children.get k = some v := by
      rcases entry_of_liveAt hlive with ⟨v, hv, -, -⟩ | ⟨m, hm, -⟩
      · exact ⟨_, (hnode k).symm.trans hv⟩
      · exact ⟨_, (hnode k).symm.trans hm⟩
    by_cases hkey : key = RECURSIVE_STAR
    · obtain rfl := hstar hkey
      subst hkey
      refine iff_of_true ?_ (matches_recursiveStar.mpr (List.cons_ne_nil k rest))
      exact ⟨(k, v), ⟨hentry, .inl (.inr rfl)⟩, rest, rfl, .inl rfl⟩
    · rw [matches_cons fun heq => absurd heq hkey]
      constructor
      · rintro ⟨e, ⟨-, hall⟩, rest', hpath, hmatches⟩
        refine ⟨e.1, rest', hpath, ?_, hmatches.resolve_left hkey⟩
        rcases hall with (hall | hall) | hall
        · exact .inl hall
        · exact absurd hall hkey
        · exact .inr hall
      · rintro ⟨part, rest', hpath, hpart, hmatches⟩
        obtain ⟨rfl, rfl⟩ := List.cons.inj hpath
        refine ⟨(k, v), ⟨hentry, ?_⟩, rest, rfl, .inr hmatches⟩
        rcases hpart with hpart | hpart
        · exact .inl (.inl hpart)
        · exact .inr hpart

/-- **Reading below a node** adds the live paths that match the pattern. -/
theorem adds_of_recursiveGet (hsound : c.Sound) (hfree : ∀ n, c.forest.Free n EMPTY_KEY)
    (hnode : c.Holds n node) (hfits : FitsFields c.forest n res)
    (h : c.recursiveGet {} steps res node path = .ok res') :
    Adds c.forest n (Matches path) res res' := by
  induction steps generalizing n node res res' path with
  | zero => cases h
  | succ steps ih =>
    cases path with
    | nil => cases h
    | cons key keys =>
      simp only [Contract.recursiveGet, bind_eq_ok, ensure_eq_ok, decide_eq_true_eq, reduceCtorEq,
        if_false] at h
      obtain ⟨_, hstar, h⟩ := h
      have hadds := adds_of_foldlM (K := fun e path => ∃ rest, path = e.1 :: rest ∧
        (key = RECURSIVE_STAR ∨ Matches keys rest)) ?_ hfits h
      · refine hadds.congr fun path s hlive => ?_
        exact matches_iff_matchedEntries hnode hstar hlive
      · rintro res res' ⟨k, v⟩ he hfits h
        have hentry := mem_matchedEntries he
        by_cases htarget : ∃ m, v = .node m
        · obtain ⟨m, rfl⟩ := htarget
          refine adds_of_nodeEntry hsound hfree hnode hentry hstar hfits ?_ h
          intro m child _ _ hchild res res' path _ hfits hwalk
          exact ih hchild hfits hwalk
        · have hvalue : target v = none := target_eq_none.mpr fun m hm => htarget ⟨m, hm⟩
          exact adds_of_leafEntry hnode hentry hvalue hstar hfits h

/-! ## Patterns -/

/-- A path without the empty key at its end. -/
def stem (path : List String) : List String :=
  if path.getLast? = some EMPTY_KEY then path.dropLast else path

theorem mem_of_mem_stem (h : key ∈ stem path) : key ∈ path := by
  unfold stem at h
  split at h
  · exact List.mem_of_mem_dropLast h
  · exact h

/-- The parts of a pattern, where a separator at the end is dropped. -/
def patternParts (pattern : String) : List String := stem (splitPath pattern)

theorem patternPath_eq_some {pattern : String} : patternPath pattern = some path ↔
    path = patternParts pattern ∧ path ≠ [] ∧ path.getLast? ≠ some EMPTY_KEY := by
  unfold patternPath patternParts stem
  dsimp only
  split
  · split
    · next hskip =>
      refine iff_of_false (by simp) ?_
      rintro ⟨rfl, hne, hlast⟩
      exact hskip.elim hlast hne
    · next hskip =>
      rw [Option.some.injEq]
      constructor
      · rintro rfl
        exact ⟨rfl, fun h => hskip (.inr h), fun h => hskip (.inl h)⟩
      · rintro ⟨rfl, -⟩
        rfl
  · next hlast =>
    split
    · next hnil =>
      refine iff_of_false (by simp) ?_
      rintro ⟨rfl, hne, -⟩
      exact hne hnil
    · next hne =>
      rw [Option.some.injEq]
      constructor
      · rintro rfl
        exact ⟨rfl, hne, hlast⟩
      · rintro ⟨rfl, -⟩
        rfl

/-- A pattern selects a path that matches its parts. A pattern that still ends in an empty part
selects none. -/
def Selects (pattern : String) (path : List String) : Prop :=
  (patternParts pattern).getLast? ≠ some EMPTY_KEY ∧ Matches (patternParts pattern) path

/-- A pattern adds the live paths that it selects. -/
theorem adds_of_getKey (hsound : c.Sound) (hfree : ∀ n, c.forest.Free n EMPTY_KEY) {pattern : String}
    (hfits : FitsFields c.forest 0 res) (h : c.getKey {} res pattern = .ok res') :
    Adds c.forest 0 (Selects pattern) res res' := by
  unfold Contract.getKey at h
  split at h
  · next path hpath =>
    obtain ⟨rfl, -, hlast⟩ := patternPath_eq_some.mp hpath
    refine (adds_of_recursiveGet hsound hfree c.holds_rootNode hfits h).congr fun path s _ => ?_
    exact (and_iff_right hlast).symm
  · next hnone =>
    cases h
    refine .refl hfits fun path s hlive hselects => ?_
    have hparts : patternParts pattern = [] := by
      by_contra hne
      cases hnone.symm.trans (patternPath_eq_some.mpr ⟨rfl, hne, hselects.1⟩)
    have hmatches := hselects.2
    rw [hparts, matches_nil] at hmatches
    obtain rfl := hmatches.resolve_left (ne_nil_of_liveAt hlive)
    rcases entry_of_liveAt hlive with ⟨v, hv, -, -⟩ | ⟨m, -, hnil⟩
    · obtain ⟨-, m, hm, -⟩ := hsound.root EMPTY_KEY _ hv
      cases hm
    · cases hnil

end Walks

/-! ## Leaves -/

/-- The value that an object has at a path. -/
def jsonAt : Json → List String → Option Json
  | value, [] => some value
  | .object fields, key :: path =>
    match find key fields with
    | none => none
    | some value => jsonAt value path
  | _, _ :: _ => none

/-- A value that is no object is at a path. -/
def IsLeaf (res : Json) (path : List String) (value : Json) : Prop :=
  jsonAt res path = some value ∧ value.isObject = false

section Leaves

variable {F : Forest String NodeValue} {n : NodeId} {key s : String} {path : List String}
  {res o : JsonMap} {value leaf : Json}

theorem stem_cons (h : path ≠ []) : stem (key :: path) = key :: stem path := by
  unfold stem
  rw [List.getLast?_cons_of_ne_nil h]
  split
  · rw [List.dropLast_cons_of_ne_nil h]
  · rfl

theorem stem_singleton (h : key ≠ EMPTY_KEY) : stem [key] = [key] := by
  simp [stem, h]

theorem stem_own (key : String) : stem [key, EMPTY_KEY] = [key] := by
  simp [stem]

theorem not_isLeaf_nil : ¬ IsLeaf (.object res) [] leaf := by
  rintro ⟨hat, hleaf⟩
  cases hat
  cases hleaf

theorem not_isLeaf_none (h : find key res = none) : ¬ IsLeaf (.object res) (key :: path) leaf := by
  simp [IsLeaf, jsonAt, h]

theorem isLeaf_cons (h : find key res = some value) :
    IsLeaf (.object res) (key :: path) leaf ↔ IsLeaf value path leaf := by
  simp [IsLeaf, jsonAt, h]

theorem isLeaf_string : IsLeaf (.string s) path leaf ↔ path = [] ∧ leaf = .string s := by
  cases path with
  | nil =>
    simp only [IsLeaf, jsonAt, Option.some.injEq, true_and]
    constructor
    · rintro ⟨rfl, -⟩
      rfl
    · rintro rfl
      exact ⟨rfl, rfl⟩
  | cons k path => simp [IsLeaf, jsonAt]

/-- A key with a node under it is not empty. -/
theorem ne_empty_of_entry (hfree : ∀ n, F.Free n EMPTY_KEY) {m : NodeId}
    (h : F.entry n key = some (.node m)) : key ≠ EMPTY_KEY := by
  rintro rfl
  cases hfree n _ h

/-- A leaf of an object is a live path that is shown, up to the empty key at the end. -/
theorem exists_shown_of_isLeaf (hfree : ∀ n, F.Free n EMPTY_KEY) (hfits : FitsFields F n res)
    (h : IsLeaf (.object res) path leaf) : ∃ live s, leaf = .string s ∧ stem live = stem path ∧
      liveAt F n live = some s ∧ Shows res live := by
  induction path generalizing n res with
  | nil => exact absurd h not_isLeaf_nil
  | cons key path ih =>
    cases hfind : find key res with
    | none => exact absurd h (not_isLeaf_none hfind)
    | some value =>
      rw [isLeaf_cons hfind] at h
      cases hfits.field hfind with
      | value hentry =>
        obtain ⟨rfl, rfl⟩ := isLeaf_string.mp h
        exact ⟨[key], _, rfl, rfl, (liveAt_cons_value hentry).mpr ⟨rfl, rfl⟩,
          (shows_cons_string hfind).mpr (.inl rfl)⟩
      | own hentry hown =>
        obtain ⟨rfl, rfl⟩ := isLeaf_string.mp h
        refine ⟨[key, EMPTY_KEY], _, rfl, ?_, ?_, (shows_cons_string hfind).mpr (.inr rfl)⟩
        · -- The own value of a node is under the empty key, which the stem drops.
          rw [stem_own, stem_singleton (ne_empty_of_entry hfree hentry)]
        · rw [liveAt_cons_node hentry]
          exact (liveAt_cons_value hown).mpr ⟨rfl, rfl⟩
      | object hentry hfields =>
        obtain ⟨live, s, rfl, hstem, hlive, hshown⟩ := ih hfields h
        have hpath : path ≠ [] := by
          rintro rfl
          exact not_isLeaf_nil h
        refine ⟨key :: live, s, rfl, ?_, ?_, (shows_cons_object hfind).mpr hshown⟩
        · rw [stem_cons (ne_nil_of_liveAt hlive), stem_cons hpath, hstem]
        · rw [liveAt_cons_node hentry, hlive]

/-- A live path that is shown is a leaf, up to the empty key at the end. -/
theorem exists_isLeaf_of_shown (hfree : ∀ n, F.Free n EMPTY_KEY) (hfits : FitsFields F n res)
    (hlive : liveAt F n path = some s) (hshown : Shows res path) :
    ∃ p, stem p = stem path ∧ IsLeaf (.object res) p (.string s) := by
  induction path generalizing n res with
  | nil => cases hlive
  | cons key path ih =>
    cases hfind : find key res with
    | none => exact absurd hshown (shows_cons_none hfind)
    | some value =>
      cases hfits.field hfind with
      | value hentry =>
        obtain ⟨rfl, rfl⟩ := (liveAt_cons_value hentry).mp hlive
        exact ⟨[key], rfl, (isLeaf_cons hfind).mpr (isLeaf_string.mpr ⟨rfl, rfl⟩)⟩
      | own hentry hown =>
        rw [liveAt_cons_node hentry] at hlive
        obtain rfl := ((shows_cons_string hfind).mp hshown).resolve_left (ne_nil_of_liveAt hlive)
        obtain ⟨-, rfl⟩ := (liveAt_cons_value hown).mp hlive
        refine ⟨[key], ?_, (isLeaf_cons hfind).mpr (isLeaf_string.mpr ⟨rfl, rfl⟩)⟩
        rw [stem_own, stem_singleton (ne_empty_of_entry hfree hentry)]
      | object hentry hfields =>
        rw [liveAt_cons_node hentry] at hlive
        obtain ⟨p, hstem, hleaf⟩ := ih hfields hlive ((shows_cons_object hfind).mp hshown)
        have hp : p ≠ [] := by
          rintro rfl
          exact not_isLeaf_nil hleaf
        refine ⟨key :: p, ?_, (isLeaf_cons hfind).mpr hleaf⟩
        rw [stem_cons hp, stem_cons (ne_nil_of_liveAt hlive), hstem]

/-! ### Objects without fields -/

theorem keys_cleanup_subset (res : JsonMap) :
    (jsonMapRecursiveCleanup res).map Prod.fst ⊆ res.map Prod.fst := by
  induction res with
  | nil => exact List.Subset.refl _
  | cons field res ih =>
    obtain ⟨k, value⟩ := field
    rw [jsonMapRecursiveCleanup, List.map_cons]
    split
    · exact List.cons_subset_cons k ih
    · split
      · exact List.subset_cons_of_subset k ih
      · exact List.cons_subset_cons k ih

/-- What is under a key is cleaned up, unless the views added the key. -/
theorem find_cleanup (key : String) (hnodup : (res.map Prod.fst).Nodup) :
    find key (jsonMapRecursiveCleanup res) =
      if isSpecialKey key = true then find key res else (find key res).bind jsonCleanup := by
  induction res with
  | nil => simp [jsonMapRecursiveCleanup, find]
  | cons field res ih =>
    obtain ⟨k, value⟩ := field
    rw [List.map_cons, List.nodup_cons] at hnodup
    have ih := ih hnodup.2
    rw [jsonMapRecursiveCleanup]
    by_cases hk : k = key
    · subst hk
      by_cases hspecial : isSpecialKey k = true
      · simp only [if_pos hspecial, find, if_true]
      · simp only [if_neg hspecial, find, if_true, Option.bind_some]
        cases hvalue : jsonCleanup value with
        | none => rw [ih, if_neg hspecial, find_eq_none.mpr hnodup.1, Option.bind_none]
        | some value' => simp [find]
    · rw [find, if_neg hk, ← ih]
      split
      · rw [find, if_neg hk]
      · cases jsonCleanup value with
        | none => rfl
        | some value' => simp [find, hk]

/-- What is under a plain key is cleaned up. -/
theorem find_cleanup_of_plain (key : String) (hnodup : (res.map Prod.fst).Nodup)
    (hplain : ∀ k ∈ res.map Prod.fst, isSpecialKey k = false) :
    find key (jsonMapRecursiveCleanup res) = (find key res).bind jsonCleanup := by
  rw [find_cleanup key hnodup]
  split
  · next hspecial =>
    have hnone : find key res = none := by
      refine find_eq_none.mpr fun hmem => ?_
      rw [hplain key hmem] at hspecial
      cases hspecial
    rw [hnone, Option.bind_none]
  · rfl

theorem FitsFields.plain (hkeys : ∀ n k v, F.entry n k = some v → PlainKey k)
    (h : FitsFields F n res) : ∀ k ∈ res.map Prod.fst, isSpecialKey k = false := by
  intro k hk
  cases hfind : find k res with
  | none => exact absurd hk (find_eq_none.mp hfind)
  | some value =>
    cases h.field hfind with
    | value hentry => exact hkeys n k _ hentry
    | own hentry hown => exact hkeys n k _ hentry
    | object hentry hfields => exact hkeys n k _ hentry

/-- An object is removed if no field of it is left. -/
theorem jsonCleanup_object (hkeys : ∀ n k v, F.entry n k = some v → PlainKey k)
    (h : FitsFields F n res) : jsonCleanup (.object res) =
      if jsonMapRecursiveCleanup res = [] then none
      else some (.object (jsonMapRecursiveCleanup res)) := by
  have hcount : (jsonMapRecursiveCleanup res).countP (fun field => isSpecialKey field.1) = 0 := by
    refine List.countP_eq_zero.mpr fun field hfield => ?_
    have hmem := keys_cleanup_subset res (List.mem_map_of_mem hfield)
    simp [h.plain hkeys _ hmem]
  rw [jsonCleanup, hcount]
  by_cases hnil : jsonMapRecursiveCleanup res = []
  · simp [hnil]
  · rw [if_pos (List.length_pos_of_ne_nil hnil), if_neg hnil]

/-- The fields that are left show the same leaves. -/
theorem isLeaf_cleanup (hkeys : ∀ n k v, F.entry n k = some v → PlainKey k)
    (h : FitsFields F n res) :
    IsLeaf (.object (jsonMapRecursiveCleanup res)) path leaf ↔ IsLeaf (.object res) path leaf := by
  induction path generalizing n res with
  | nil => exact iff_of_false not_isLeaf_nil not_isLeaf_nil
  | cons key path ih =>
    have hclean := find_cleanup_of_plain key h.nodup (h.plain hkeys)
    cases hfind : find key res with
    | none =>
      rw [hfind, Option.bind_none] at hclean
      exact iff_of_false (not_isLeaf_none hclean) (not_isLeaf_none hfind)
    | some value =>
      rw [hfind, Option.bind_some] at hclean
      rw [isLeaf_cons hfind]
      cases h.field hfind with
      | value hentry => exact isLeaf_cons hclean
      | own hentry hown => exact isLeaf_cons hclean
      | object hentry hfields =>
        rw [jsonCleanup_object hkeys hfields] at hclean
        rw [← ih hfields]
        split at hclean
        · next hnil =>
          rw [hnil]
          refine iff_of_false (not_isLeaf_none hclean) ?_
          cases path with
          | nil => exact not_isLeaf_nil
          | cons k path => exact not_isLeaf_none rfl
        · exact isLeaf_cons hclean

/-- No object without fields is left below another one. -/
theorem ne_empty_of_cleanup (hkeys : ∀ n k v, F.entry n k = some v → PlainKey k)
    (h : FitsFields F n res)
    (hat : jsonAt (.object (jsonMapRecursiveCleanup res)) path = some (.object [])) : path = [] := by
  induction path generalizing n res with
  | nil => rfl
  | cons key path ih =>
    have hclean := find_cleanup_of_plain key h.nodup (h.plain hkeys)
    rw [jsonAt, hclean] at hat
    cases hfind : find key res with
    | none =>
      rw [hfind] at hat
      cases hat
    | some value =>
      rw [hfind, Option.bind_some] at hat
      cases h.field hfind with
      | value hentry => cases path <;> cases hat
      | own hentry hown => cases path <;> cases hat
      | object hentry hfields =>
        rw [jsonCleanup_object hkeys hfields] at hat
        split at hat
        · cases hat
        · next value hvalue =>
          split at hvalue
          · cases hvalue
          · next hne =>
            cases hvalue
            obtain rfl := ih hfields hat
            exact absurd (Json.object.inj (Option.some.inj hat)) hne

end Leaves

/-! ## Every run -/

/-- **Reading.** In every contract that calls lead to and that has no node under an empty key, `get`
returns, for patterns with `**` at their ends at most, an object whose leaves are the live paths that
the patterns select with their values, up to the empty key at the end of a path. No object in it is
empty. -/
theorem get_leaves (host : Host) (start : Env) (calls : List Call) (patterns : List String)
    (options : Option GetOptions) (hoptions : options.getD {} = {})
    (hfree : ∀ n, ((system host).run (.new start) calls).forest.Free n EMPTY_KEY)
    (hstar : ∀ pattern ∈ patterns, RECURSIVE_STAR ∉ (patternParts pattern).dropLast) :
    let c := (system host).run (.new start) calls
    ∃ res, c.get patterns options = .ok res ∧
      (∀ path leaf, (∃ p, stem p = path ∧ IsLeaf res p leaf) ↔
        ∃ p value, stem p = path ∧ leaf = .string value ∧ liveAt c.forest 0 p = some value ∧
          ∃ pattern ∈ patterns, Selects pattern p) ∧
      ∀ path, jsonAt res path = some (.object []) → path = [] := by
  intro c
  have hsound : c.Sound := sound_run host start calls
  have havoids : Avoids (fun _ => True) (c.get patterns options) := by
    refine get_avoids hsound fun _ pattern hpattern path hpath => ?_
    rw [(patternPath_eq_some.mp hpath).1]
    exact hstar pattern hpattern
  obtain ⟨res, hres⟩ := havoids.exists_eq_ok
  refine ⟨res, hres, ?_⟩
  simp only [Contract.get, hoptions, bind_eq_ok, pure_eq_ok] at hres
  obtain ⟨fields, hfold, rfl⟩ := hres
  have hadds : Adds c.forest 0 (fun path => ∃ pattern ∈ patterns, Selects pattern path) [] fields :=
    adds_of_foldlM (fun res res' pattern _ hfits h => adds_of_getKey hsound hfree hfits h)
      (.nil c.forest 0) hfold
  have hshown : ∀ path s, liveAt c.forest 0 path = some s →
      (Shows fields path ↔ ∃ pattern ∈ patterns, Selects pattern path) := by
    intro path s hlive
    rw [hadds.shows path s hlive]
    refine or_iff_right ?_
    cases path with
    | nil => exact id
    | cons k path => exact shows_cons_none rfl
  refine ⟨fun path leaf => ?_, fun path => ne_empty_of_cleanup hsound.keys hadds.fits⟩
  constructor
  · rintro ⟨p, rfl, hleaf⟩
    obtain ⟨live, s, rfl, hstem, hlive, hlives⟩ :=
      exists_shown_of_isLeaf hfree hadds.fits ((isLeaf_cleanup hsound.keys hadds.fits).mp hleaf)
    exact ⟨live, s, hstem, rfl, hlive, (hshown live s hlive).mp hlives⟩
  · rintro ⟨p, value, rfl, rfl, hlive, hselects⟩
    obtain ⟨p', hstem, hleaf⟩ :=
      exists_isLeaf_of_shown hfree hadds.fits hlive ((hshown p value hlive).mpr hselects)
    exact ⟨p', hstem, (isLeaf_cleanup hsound.keys hadds.fits).mpr hleaf⟩

theorem get_leaves_sampleValue :
    let c := (system sampleHost).run (.new (sampleEnv "social" 0 (by decide)))
      [sampleLive, sampleValue]
    ∃ res, c.get ["alice/**", "alice/a"] none = .ok res ∧
      (∀ path leaf, (∃ p, stem p = path ∧ IsLeaf res p leaf) ↔
        ∃ p value, stem p = path ∧ leaf = .string value ∧ liveAt c.forest 0 p = some value ∧
          ∃ pattern ∈ ["alice/**", "alice/a"], Selects pattern p) ∧
      ∀ path, jsonAt res path = some (.object []) → path = [] :=
  get_leaves sampleHost (sampleEnv "social" 0 (by decide)) [sampleLive, sampleValue]
    ["alice/**", "alice/a"] none rfl (free_run _ _ _ (by decide +kernel)) (by decide +kernel)

/-- An account has a value of its own. -/
def sampleOwnValue : Call where
  env := sampleEnv "alice" (10 ^ 23) sampleDeposit_le
  method := .set (.object [("alice", .string "x")]) none

def sampleOwned : Contract :=
  (system sampleHost).run (.new (sampleEnv "social" 0 (Nat.zero_le _))) [sampleLive, sampleOwnValue]

/-- A pattern with two separators at its end matches an own value, and is left out. -/
theorem not_get_leaves :
    ¬ ∀ (host : Host) (start : Env) (calls : List Call) (patterns : List String),
      (∀ n, ((system host).run (.new start) calls).forest.Free n EMPTY_KEY) →
      (∀ pattern ∈ patterns, RECURSIVE_STAR ∉ (patternParts pattern).dropLast) →
      let c := (system host).run (.new start) calls
      ∃ res, c.get patterns none = .ok res ∧
        ∀ path leaf, (∃ p, stem p = path ∧ IsLeaf res p leaf) ↔
          ∃ p value, stem p = path ∧ leaf = .string value ∧ liveAt c.forest 0 p = some value ∧
            ∃ pattern ∈ patterns, Matches (patternParts pattern) p := by
  intro h
  obtain ⟨res, hget, hleaves⟩ := h sampleHost (sampleEnv "social" 0 (by decide))
    [sampleLive, sampleOwnValue] ["alice//"] (free_run _ _ _ (by decide +kernel)) (by decide +kernel)
  have hparts : patternParts "alice//" = ["alice", ""] := by decide +kernel
  have hskip : patternPath "alice//" = none := by decide +kernel
  simp only [Contract.get, Contract.getKey, List.foldlM_cons, List.foldlM_nil, hskip, pure_bind,
    pure_eq_ok, jsonMapRecursiveCleanup] at hget
  subst hget
  obtain ⟨p, -, hleaf⟩ := (hleaves ["alice"] (.string "x")).mpr
    ⟨["alice", ""], "x", stem_own "alice", rfl, by decide +kernel, "alice//", List.mem_singleton_self _,
      hparts ▸ .inl (.cons (.inr rfl) (.cons (.inr rfl) .nil))⟩
  cases p with
  | nil => exact not_isLeaf_nil hleaf
  | cons k p => exact not_isLeaf_none rfl hleaf

end UncContracts.Social
