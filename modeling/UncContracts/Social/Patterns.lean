import UncContracts.Social.Tree
import UncContracts.Social.Views

/-!
# Patterns of paths

A path of keys is live if it leads through the nodes to a value. Reading by patterns merges the live
values that match into one JSON object, in which the own value of a node is at first the value of
its key, and moves under the empty key when something below the node joins it.

## Main definitions

* `liveAt`: the value of a live path
* `Matches`: a path matches a pattern
* `FitsFields`: an object has values of the store at their places
* `Shows`: an object has the value of a live path
* `Adds`: what is added to an object

## Main results

* `Adds.field`: what is added below a node
* `adds_of_leaf`, `adds_of_own`: what a value adds
-/

namespace UncContracts.Social

open Foundation HasTarget UnorderedMap

/-- The value of a live path, which leads through nodes to a value. -/
def liveAt (F : Forest String NodeValue) : NodeId → List String → Option String
  | _, [] => none
  | n, key :: path =>
    match F.entry n key with
    | some (.node m) => liveAt F m path
    | some (.value v) => if path = [] then some v.value else none
    | _ => none

/-- A part of a pattern is for any key, or for itself. -/
def PartMatches (key part : String) : Prop := key = STAR ∨ key = part

/-- A path matches a pattern: part by part, or with the empty key below a node that matches, or at
any place below what matches up to `**`. -/
def Matches (keys path : List String) : Prop :=
  List.Forall₂ PartMatches keys path ∨
    (∃ node, path = node ++ [EMPTY_KEY] ∧ List.Forall₂ PartMatches keys node) ∨
    ∃ init node rest, keys = init ++ [RECURSIVE_STAR] ∧ path = node ++ rest ∧ rest ≠ [] ∧
      List.Forall₂ PartMatches init node

section Matching

variable {key : String} {keys path : List String}

theorem matches_nil : Matches [] path ↔ path = [] ∨ path = [EMPTY_KEY] := by
  simp [Matches]

theorem matches_recursiveStar : Matches [RECURSIVE_STAR] path ↔ path ≠ [] := by
  constructor
  · rintro (h | ⟨node, rfl, -⟩ | ⟨init, node, rest, -, rfl, hrest, -⟩)
    · cases h
      exact List.cons_ne_nil _ _
    · simp
    · simp [hrest]
  · exact fun h => .inr (.inr ⟨[], [], path, rfl, rfl, h, .nil⟩)

theorem not_matches_nil (h : keys ≠ []) : ¬ Matches keys [] := by
  rintro (hall | ⟨node, hpath, -⟩ | ⟨init, node, rest, -, hpath, hrest, -⟩)
  · cases hall
    exact h rfl
  · simp at hpath
  · exact hrest (List.append_eq_nil_iff.mp hpath.symm).2

/-- The first part of a pattern is for the first key, and the rest for the rest. -/
theorem matches_cons (h : key = RECURSIVE_STAR → keys ≠ []) : Matches (key :: keys) path ↔
    ∃ part rest, path = part :: rest ∧ PartMatches key part ∧ Matches keys rest := by
  constructor
  · rintro (hall | ⟨node, rfl, hall⟩ | ⟨init, node, rest, hkeys, rfl, hrest, hall⟩)
    · cases hall with
      | cons hpart hall => exact ⟨_, _, rfl, hpart, .inl hall⟩
    · cases hall with
      | cons hpart hall => exact ⟨_, _, rfl, hpart, .inr (.inl ⟨_, rfl, hall⟩)⟩
    · cases hall with
      | nil =>
        obtain ⟨rfl, rfl⟩ := List.cons.inj hkeys
        exact absurd rfl (h rfl)
      | cons hpart hall =>
        obtain ⟨rfl, rfl⟩ := List.cons.inj hkeys
        exact ⟨_, _, rfl, hpart, .inr (.inr ⟨_, _, _, rfl, rfl, hrest, hall⟩)⟩
  · rintro ⟨part, rest, rfl, hpart, hall | ⟨node, rfl, hall⟩ | ⟨init, node, rest, rfl, rfl, hrest,
      hall⟩⟩
    · exact .inl (.cons hpart hall)
    · exact .inr (.inl ⟨part :: node, rfl, .cons hpart hall⟩)
    · exact .inr (.inr ⟨key :: init, part :: node, rest, rfl, rfl, hrest, .cons hpart hall⟩)

end Matching

/-! ## Live paths -/

section Live

variable {F : Forest String NodeValue} {n m : NodeId} {key s : String} {path : List String}
  {v : ValueAtHeight}

theorem liveAt_cons_node (h : F.entry n key = some (.node m)) :
    liveAt F n (key :: path) = liveAt F m path := by
  simp [liveAt, h]

theorem liveAt_cons_value (h : F.entry n key = some (.value v)) :
    liveAt F n (key :: path) = some s ↔ path = [] ∧ v.value = s := by
  simp [liveAt, h]

theorem ne_nil_of_liveAt (h : liveAt F n path = some s) : path ≠ [] := by
  rintro rfl
  cases h

/-- The first key of a live path has a value, or leads to a node where the rest is live. -/
theorem entry_of_liveAt (h : liveAt F n (key :: path) = some s) :
    (∃ v, F.entry n key = some (.value v) ∧ path = [] ∧ v.value = s) ∨
      ∃ m, F.entry n key = some (.node m) ∧ liveAt F m path = some s := by
  cases hentry : F.entry n key with
  | none => simp [liveAt, hentry] at h
  | some u =>
    cases u with
    | value v => exact .inl ⟨v, rfl, (liveAt_cons_value hentry).mp h⟩
    | node m => exact .inr ⟨m, rfl, (liveAt_cons_node hentry).symm.trans h⟩
    | deletedEntry blockHeight => simp [liveAt, hentry] at h

/-- The own value of a node is live under the empty key. -/
theorem eq_own_of_liveAt (hfree : F.Free n EMPTY_KEY)
    (h : liveAt F n (EMPTY_KEY :: path) = some s) : path = [] := by
  rcases entry_of_liveAt h with ⟨v, -, hpath, -⟩ | ⟨m, hentry, -⟩
  · exact hpath
  · cases hfree _ hentry

end Live

/-! ## What an object shows -/

mutual

/-- The fields of an object have values of the entries of a node. -/
inductive FitsFields (F : Forest String NodeValue) : NodeId → JsonMap → Prop
  | intro {n : NodeId} {res : JsonMap} (nodup : (res.map Prod.fst).Nodup)
    (fields : ∀ key value, find key res = some value → FitsValue F n key value) :
    FitsFields F n res

/-- A string is the value of an entry, or the own value of the node that it leads to. An object is
for an entry that leads to a node. -/
inductive FitsValue (F : Forest String NodeValue) : NodeId → String → Json → Prop
  | value {n : NodeId} {key : String} {v : ValueAtHeight}
    (hentry : F.entry n key = some (.value v)) : FitsValue F n key (.string v.value)
  | own {n m : NodeId} {key : String} {v : ValueAtHeight}
    (hentry : F.entry n key = some (.node m)) (hown : F.entry m EMPTY_KEY = some (.value v)) :
    FitsValue F n key (.string v.value)
  | object {n m : NodeId} {key : String} {o : JsonMap}
    (hentry : F.entry n key = some (.node m)) (hfields : FitsFields F m o) :
    FitsValue F n key (.object o)

end

/-- An object has the value of a live path. A value in place of an object is the own value of a
node. -/
def Shows : JsonMap → List String → Prop
  | _, [] => False
  | res, key :: path =>
    match find key res with
    | none => False
    | some (.object o) => Shows o path
    | some _ => path = [] ∨ path = [EMPTY_KEY]

/-- Fields are added to an object for live paths of some kind. -/
structure Adds (F : Forest String NodeValue) (n : NodeId) (G : List String → Prop)
    (res res' : JsonMap) : Prop where
  fits : FitsFields F n res'
  shows : ∀ path s, liveAt F n path = some s → (Shows res' path ↔ Shows res path ∨ G path)

section Shown

variable {F : Forest String NodeValue} {n m : NodeId} {key key' s : String} {path : List String}
  {v : ValueAtHeight} {res res' res'' o : JsonMap} {value : Json} {G G' : List String → Prop}
  {nodeValue : NodeValue}

theorem FitsFields.nodup (h : FitsFields F n res) : (res.map Prod.fst).Nodup := by
  cases h with
  | intro nodup fields => exact nodup

theorem FitsFields.field (h : FitsFields F n res) (hfind : find key res = some value) :
    FitsValue F n key value := by
  cases h with
  | intro nodup fields => exact fields key value hfind

theorem FitsFields.nil (F : Forest String NodeValue) (n : NodeId) : FitsFields F n [] :=
  .intro List.nodup_nil fun _ _ hfind => by cases hfind

theorem FitsFields.write (h : FitsFields F n res) (hvalue : FitsValue F n key value) :
    FitsFields F n (write key value res) := by
  refine .intro (nodup_write h.nodup) fun key' value' hfind => ?_
  by_cases heq : key' = key
  · subst heq
    rw [find_write_self] at hfind
    cases hfind
    exact hvalue
  · rw [find_write_of_ne heq] at hfind
    exact h.field hfind

/-- A field for an entry with a value is the value. -/
theorem FitsValue.eq_string (h : FitsValue F n key value) (hentry : F.entry n key = some (.value v)) :
    value = .string v.value := by
  cases h with
  | value hentry' =>
    cases hentry.symm.trans hentry'
    rfl
  | own hentry' hown => cases hentry.symm.trans hentry'
  | object hentry' hfields => cases hentry.symm.trans hentry'

/-- A field for an entry that leads to a node is its own value or an object. -/
theorem FitsValue.of_node (h : FitsValue F n key value) (hentry : F.entry n key = some (.node m)) :
    (∃ v, F.entry m EMPTY_KEY = some (.value v) ∧ value = .string v.value) ∨
      ∃ o, value = .object o ∧ FitsFields F m o := by
  cases h with
  | value hentry' => cases hentry.symm.trans hentry'
  | own hentry' hown =>
    cases hentry.symm.trans hentry'
    exact .inl ⟨_, hown, rfl⟩
  | object hentry' hfields =>
    cases hentry.symm.trans hentry'
    exact .inr ⟨_, rfl, hfields⟩

theorem shows_cons_none (h : find key res = none) : ¬ Shows res (key :: path) := by
  simp [Shows, h]

theorem shows_cons_object (h : find key res = some (.object o)) :
    Shows res (key :: path) ↔ Shows o path := by
  simp [Shows, h]

theorem shows_cons_string (h : find key res = some (.string s)) :
    Shows res (key :: path) ↔ path = [] ∨ path = [EMPTY_KEY] := by
  simp [Shows, h]

theorem shows_write_of_ne (h : key' ≠ key) :
    Shows (write key value res) (key' :: path) ↔ Shows res (key' :: path) := by
  simp only [Shows, find_write_of_ne h]

/-! ### Additions -/

theorem Adds.refl (h : FitsFields F n res) (hG : ∀ path s, liveAt F n path = some s → G path →
    Shows res path) : Adds F n G res res :=
  ⟨h, fun path s hlive => (or_iff_left_of_imp (hG path s hlive)).symm⟩

theorem Adds.congr (h : Adds F n G res res')
    (hG : ∀ path s, liveAt F n path = some s → (G path ↔ G' path)) : Adds F n G' res res' :=
  ⟨h.fits, fun path s hlive => (h.shows path s hlive).trans (or_congr_right (hG path s hlive))⟩

theorem Adds.trans (h : Adds F n G res res') (h' : Adds F n G' res' res'') :
    Adds F n (fun path => G path ∨ G' path) res res'' := by
  refine ⟨h'.fits, fun path s hlive => ?_⟩
  rw [h'.shows path s hlive, h.shows path s hlive, or_assoc]

/-- A fold adds what each of its steps adds. -/
theorem adds_of_foldlM {α : Type} {f : JsonMap → α → Exec JsonMap} {K : α → List String → Prop}
    {l : List α} (hf : ∀ res res', ∀ a ∈ l, FitsFields F n res → f res a = .ok res' →
      Adds F n (K a) res res') (hfits : FitsFields F n res) (h : l.foldlM f res = .ok res') :
    Adds F n (fun path => ∃ a ∈ l, K a path) res res' := by
  induction l generalizing res with
  | nil =>
    cases h
    refine .refl hfits ?_
    rintro _ _ _ ⟨a, ha, -⟩
    cases ha
  | cons a l ih =>
    rw [List.foldlM_cons, bind_eq_ok] at h
    obtain ⟨res₁, hfirst, hrest⟩ := h
    have hadds := hf res res₁ a (List.mem_cons_self ..) hfits hfirst
    have hothers := ih (fun res res' a ha => hf res res' a (List.mem_cons_of_mem _ ha)) hadds.fits hrest
    refine (hadds.trans hothers).congr fun path s _ => ?_
    simp

theorem jsonMapGetInnerObject_of_object (h : find key res = some (.object o)) :
    jsonMapGetInnerObject res key = o := by
  simp only [jsonMapGetInnerObject, h]

/-- A value that is no object moves under the empty key of a new object. -/
theorem jsonMapGetInnerObject_of_leaf (h : find key res = some value) (hleaf : value.isObject = false) :
    jsonMapGetInnerObject res key = UnorderedMap.write EMPTY_KEY value [] := by
  cases value with
  | object o => cases hleaf
  | null | bool b | number m e | string s | array elements => simp only [jsonMapGetInnerObject, h, write]

/-- `keys` leaves a value that is no object. -/
theorem jsonMapSetValue_of_leaf (h : find key res = some value) (hleaf : value.isObject = false)
    (new : Json) : jsonMapSetValue res key new = res := by
  cases value with
  | object o => cases hleaf
  | null | bool b | number m e | string s | array elements => simp only [jsonMapSetValue, h]

/-- The object under a key shows what is shown below the key. -/
theorem fits_innerObject (h : FitsFields F n res) (hentry : F.entry n key = some (.node m))
    (hfree : F.Free m EMPTY_KEY) :
    FitsFields F m (jsonMapGetInnerObject res key) ∧ ∀ path s, liveAt F m path = some s →
      (Shows (jsonMapGetInnerObject res key) path ↔ Shows res (key :: path)) := by
  unfold jsonMapGetInnerObject
  cases hfind : find key res with
  | none =>
    refine ⟨.nil F m, fun path s hlive => ?_⟩
    refine iff_of_false ?_ (shows_cons_none hfind)
    cases path with
    | nil => exact id
    | cons k path => exact shows_cons_none rfl
  | some value =>
    rcases (h.field hfind).of_node hentry with ⟨v, hown, rfl⟩ | ⟨o, rfl, hfields⟩
    · have hfits : FitsFields F m [(EMPTY_KEY, .string v.value)] := by
        have hwrite := (FitsFields.nil F m).write (.value hown)
        exact hwrite
      refine ⟨hfits, fun path s hlive => ?_⟩
      rw [shows_cons_string hfind]
      cases path with
      | nil => cases hlive
      | cons k path =>
        by_cases hk : k = EMPTY_KEY
        · subst hk
          obtain rfl := eq_own_of_liveAt hfree hlive
          simp [Shows, find]
        · simp [Shows, find, Ne.symm hk, hk]
    · exact ⟨hfields, fun path s hlive => (shows_cons_object hfind).symm⟩

/-- **What is added below a node** is added under its key. -/
theorem Adds.field (hfits : FitsFields F n res) (hentry : F.entry n key = some (.node m))
    (hfree : F.Free m EMPTY_KEY) (h : Adds F m G (jsonMapGetInnerObject res key) o) :
    Adds F n (fun path => ∃ rest, path = key :: rest ∧ G rest) res (write key (.object o) res) := by
  refine ⟨hfits.write (.object hentry h.fits), fun path s hlive => ?_⟩
  cases path with
  | nil => cases hlive
  | cons k path =>
    by_cases hk : k = key
    · subst hk
      have hlive' : liveAt F m path = some s := (liveAt_cons_node hentry).symm.trans hlive
      have hinner := (fits_innerObject hfits hentry hfree).2 path s hlive'
      rw [shows_cons_object find_write_self, h.shows path s hlive', hinner]
      simp
    · rw [shows_write_of_ne hk]
      simp [hk]

/-! ### Values -/

/-- A value joins the fields, or the object that is under its key. -/
theorem jsonMapSetKey_eq (options : GetOptions) (res : JsonMap) (key : String)
    (nodeValue : NodeValue) :
    jsonMapSetKey options res key nodeValue =
      match find key res with
      | none => do
        let newValue ← options.newValue nodeValue
        return res ++ (newValue.map fun value => (key, value)).toList
      | some value => do
        let value ← jsonSetOwnKey options value nodeValue
        return write key value res := by
  induction res with
  | nil => rfl
  | cons field res ih =>
    obtain ⟨k, value⟩ := field
    rw [jsonMapSetKey]
    by_cases hk : k = key
    · simp only [find, write, if_pos hk]
      rw [hk]
    · simp only [find, write, if_neg hk, ih]
      cases find key res with
      | none => simp only [bind_assoc, pure_bind, List.cons_append]
      | some value => simp only [bind_assoc, pure_bind]

/-- A value that is no object stays as it is. -/
theorem jsonSetOwnKey_of_leaf {options : GetOptions} (h : value.isObject = false) :
    jsonSetOwnKey options value nodeValue = .ok value := by
  cases value with
  | object o => cases h
  | null | bool b | number m e | string s | array elements => rfl

theorem jsonMapSetKey_value_of_none (h : find key res = none) :
    jsonMapSetKey {} res key (.value v) = .ok (write key (.string v.value) res) := by
  rw [jsonMapSetKey_eq, h, write_of_find_none h]
  rfl

/-- Nothing is shown for the mark of a deleted value. -/
theorem jsonMapSetKey_deletedEntry_of_none (h : find key res = none) (blockHeight : ℕ) :
    jsonMapSetKey {} res key (.deletedEntry blockHeight) = .ok res := by
  rw [jsonMapSetKey_eq, h]
  exact congrArg Except.ok (List.append_nil res)

theorem jsonMapSetKey_of_string {options : GetOptions} (h : find key res = some (.string s)) :
    jsonMapSetKey options res key nodeValue = .ok res := by
  rw [jsonMapSetKey_eq, h]
  exact congrArg Except.ok (write_of_find h)

/-- An object takes a value under the empty key. -/
theorem jsonMapSetKey_of_object {options : GetOptions} (h : find key res = some (.object o)) :
    jsonMapSetKey options res key nodeValue = .ok res' ↔
      ∃ o', jsonMapSetKey options o EMPTY_KEY nodeValue = .ok o' ∧ write key (.object o') res = res' := by
  rw [jsonMapSetKey_eq, h]
  simp only [jsonSetOwnKey, bind_assoc, pure_bind, bind_eq_ok, pure_eq_ok]

/-- An entry without a node under it adds its path, if it has a value. -/
theorem adds_of_leaf (h : FitsFields F n res) (hentry : F.entry n key = some nodeValue)
    (hvalue : target nodeValue = none) (hset : jsonMapSetKey {} res key nodeValue = .ok res') :
    Adds F n (· = [key]) res res' := by
  cases nodeValue with
  | node m => cases hvalue
  | value v =>
    cases hfind : find key res with
    | none =>
      rw [jsonMapSetKey_value_of_none hfind] at hset
      cases hset
      refine ⟨h.write (.value hentry), fun path s hlive => ?_⟩
      cases path with
      | nil => cases hlive
      | cons k path =>
        by_cases hk : k = key
        · subst hk
          obtain ⟨rfl, -⟩ := (liveAt_cons_value hentry).mp hlive
          simp [shows_cons_string find_write_self]
        · rw [shows_write_of_ne hk]
          simp [hk]
    | some value =>
      obtain rfl := (h.field hfind).eq_string hentry
      rw [jsonMapSetKey_of_string hfind] at hset
      cases hset
      refine .refl h fun path s hlive hpath => ?_
      subst hpath
      exact (shows_cons_string hfind).mpr (.inl rfl)
  | deletedEntry blockHeight =>
    cases hfind : find key res with
    | none =>
      rw [jsonMapSetKey_deletedEntry_of_none hfind] at hset
      cases hset
      refine .refl h fun path s hlive hpath => ?_
      subst hpath
      simp [liveAt, hentry] at hlive
    | some value =>
      cases h.field hfind with
      | value hentry' => cases hentry.symm.trans hentry'
      | own hentry' hown => cases hentry.symm.trans hentry'
      | object hentry' hfields => cases hentry.symm.trans hentry'

/-- The own entry of a node adds its path, if it has a value. -/
theorem adds_of_own (h : FitsFields F n res) (hentry : F.entry n key = some (.node m))
    (hown : F.entry m EMPTY_KEY = some nodeValue) (hfree : F.Free m EMPTY_KEY)
    (hset : jsonMapSetKey {} res key nodeValue = .ok res') :
    Adds F n (· = [key, EMPTY_KEY]) res res' := by
  have hvalue : target nodeValue = none := hfree nodeValue hown
  cases hfind : find key res with
  | none =>
    cases nodeValue with
    | node m => cases hvalue
    | value v =>
      rw [jsonMapSetKey_value_of_none hfind] at hset
      cases hset
      refine ⟨h.write (.own hentry hown), fun path s hlive => ?_⟩
      cases path with
      | nil => cases hlive
      | cons k path =>
        by_cases hk : k = key
        · subst hk
          have hne : path ≠ [] := by
            rintro rfl
            cases (liveAt_cons_node hentry).symm.trans hlive
          simp [shows_cons_string find_write_self, shows_cons_none hfind, hne]
        · rw [shows_write_of_ne hk]
          simp [hk]
    | deletedEntry blockHeight =>
      rw [jsonMapSetKey_deletedEntry_of_none hfind] at hset
      cases hset
      refine .refl h fun path s hlive hpath => ?_
      subst hpath
      simp [liveAt, hentry, hown] at hlive
  | some value =>
    rcases (h.field hfind).of_node hentry with ⟨v, -, rfl⟩ | ⟨o, rfl, hfields⟩
    · rw [jsonMapSetKey_of_string hfind] at hset
      cases hset
      refine .refl h fun path s hlive hpath => ?_
      subst hpath
      exact (shows_cons_string hfind).mpr (.inr rfl)
    -- Something below the node was read, and the own value moves under the empty key.
    · obtain ⟨o', ho', rfl⟩ := (jsonMapSetKey_of_object hfind).mp hset
      have hinner : jsonMapGetInnerObject res key = o := jsonMapGetInnerObject_of_object hfind
      have hadds : Adds F m (· = [EMPTY_KEY]) (jsonMapGetInnerObject res key) o' :=
        hinner.symm ▸ adds_of_leaf hfields hown hvalue ho'
      refine (Adds.field h hentry hfree hadds).congr fun path s _ => ?_
      constructor
      · rintro ⟨rest, rfl, rfl⟩
        rfl
      · rintro rfl
        exact ⟨_, rfl, rfl⟩

end Shown

end UncContracts.Social
