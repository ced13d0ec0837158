import UncContracts.Sdk.JsonLeaves
import UncContracts.Social.Reading

/-!
# Keys and values

`keys` walks the nodes as `get` does, and shows `true` where `get` shows a value. With the option to
match values only, the two build objects of the same shape, step by step: an own value that joins an
object, a value that an object takes the place of, and a mark of a deleted value are treated alike. This
relies on the empty keys, which lead to no node.

## Main definitions

* `leafTrue`: what is shown for a leaf of `get`
* `OwnLeaves`: what `get` builds, where no object is under an empty key
* `ShownTrue`: an object of `get`, and the one with `true` for its leaves

## Main results

* `setKey_simulated`: a value that joins what is there
* `recursiveKeys_simulates`: the keys below a node that match a pattern
* `keys_eq_get`: `keys` returns what `get` returns, with `true` for its leaves
-/

namespace UncContracts.Social

open Foundation UnorderedMap

/-- What is shown for a leaf of `get`, which is a string or null. -/
def leafTrue : Json → Json
  | .string _ => .bool true
  | .null => .bool true
  | value => value

/-- What `get` builds of its values. No object is under an empty key. -/
inductive OwnLeaves : Json → Prop
  | leaf {value : Json} (h : value.isString = true ∨ value.isNull = true) : OwnLeaves value
  | object {o : JsonMap} (own : ∀ value, find EMPTY_KEY o = some value → value.isObject = false)
    (field : ∀ key value, find key o = some value → OwnLeaves value) : OwnLeaves (.object o)

/-- An object that `get` builds, and the one with `true` for its leaves. -/
def ShownTrue (res shown : JsonMap) : Prop :=
  OwnLeaves (.object res) ∧ shown = Json.mapFields leafTrue res

section Steps

variable {res shown o : JsonMap} {key : String} {value : Json} {nodeValue : NodeValue}
  {d : Option Bool}

namespace OwnLeaves

theorem own (h : OwnLeaves (.object res)) (hfind : find EMPTY_KEY res = some value) :
    value.isObject = false := by
  cases h with
  | leaf h => rcases h with h | h <;> cases h
  | object own field => exact own value hfind

theorem field (h : OwnLeaves (.object res)) (hfind : find key res = some value) :
    OwnLeaves value := by
  cases h with
  | leaf h => rcases h with h | h <;> cases h
  | object own field => exact field key value hfind

theorem nil : OwnLeaves (.object []) :=
  .object (fun _ hfind => by cases hfind) fun _ _ hfind => by cases hfind

/-- A leaf is shown as `true`. -/
theorem mapLeaves_eq_true (h : OwnLeaves value) (hleaf : value.isObject = false) :
    value.mapLeaves leafTrue = .bool true := by
  cases h with
  | object own field => cases hleaf
  | leaf h =>
    cases value with
    | null | string s => simp only [Json.mapLeaves, leafTrue]
    | bool b | number m e | array elements | object o => rcases h with h | h <;> cases h

theorem write (h : OwnLeaves (.object res)) (hvalue : OwnLeaves value)
    (hown : key = EMPTY_KEY → value.isObject = false) :
    OwnLeaves (.object (UnorderedMap.write key value res)) := by
  refine .object (fun value' hfind => ?_) fun key' value' hfind => ?_
  · by_cases hkey : EMPTY_KEY = key
    · subst hkey
      rw [find_write_self] at hfind
      cases hfind
      exact hown rfl
    · rw [find_write_of_ne hkey] at hfind
      exact h.own hfind
  · by_cases hkey : key' = key
    · subst hkey
      rw [find_write_self] at hfind
      cases hfind
      exact hvalue
    · rw [find_write_of_ne hkey] at hfind
      exact h.field hfind

end OwnLeaves

namespace ShownTrue

theorem nil : ShownTrue [] [] := ⟨.nil, Json.mapFields_nil.symm⟩

/-- An object is written in both. -/
theorem write (h : ShownTrue res shown) (hkey : key ≠ EMPTY_KEY) {o o' : JsonMap}
    (ho : ShownTrue o o') : ShownTrue (UnorderedMap.write key (.object o) res)
      (UnorderedMap.write key (.object o') shown) := by
  obtain ⟨hres, rfl⟩ := h
  obtain ⟨ho, rfl⟩ := ho
  refine ⟨hres.write ho fun heq => absurd heq hkey, ?_⟩
  rw [← Json.mapLeaves_object, Json.write_mapFields]

/-- The objects under a key. -/
theorem innerObject (h : ShownTrue res shown) (key : String) :
    ShownTrue (jsonMapGetInnerObject res key) (jsonMapGetInnerObject shown key) := by
  obtain ⟨hres, rfl⟩ := h
  have hshown : find key (Json.mapFields leafTrue res) =
      (find key res).map (Json.mapLeaves leafTrue) := Json.find_mapFields ..
  cases hfind : find key res with
  | none =>
    rw [hfind, Option.map_none] at hshown
    simp only [jsonMapGetInnerObject, hfind, hshown]
    exact nil
  | some value =>
    have hvalue := hres.field hfind
    rw [hfind, Option.map_some] at hshown
    rcases value.exists_object_or_leaf with ⟨o, rfl⟩ | hleaf
    · rw [Json.mapLeaves_object] at hshown
      rw [jsonMapGetInnerObject_of_object hfind, jsonMapGetInnerObject_of_object hshown]
      exact ⟨hvalue, rfl⟩
    · have htrue := hvalue.mapLeaves_eq_true hleaf
      rw [jsonMapGetInnerObject_of_leaf hfind hleaf,
        jsonMapGetInnerObject_of_leaf hshown (by rw [htrue]; rfl)]
      refine ⟨OwnLeaves.nil.write hvalue fun _ => hleaf, ?_⟩
      rw [← Json.write_mapFields, Json.mapFields_nil]

end ShownTrue

/-- An entry that is shown, where no height is. -/
def shownEntry (d : Option Bool) : NodeValue → Option Json
  | .value v => some (.string v.value)
  | .deletedEntry _ => if d = some true then some .null else none
  | .node _ => none

theorem newValue_eq (d : Option Bool) (nodeValue : NodeValue) :
    GetOptions.newValue { returnDeleted := d } nodeValue = .ok (shownEntry d nodeValue) := by
  cases nodeValue with
  | value v => rfl
  | node m => rfl
  | deletedEntry blockHeight =>
    by_cases hd : d = some true
    · subst hd
      rfl
    · simp only [GetOptions.newValue, shownEntry, if_neg hd]
      rfl

theorem ownLeaves_of_shownEntry (h : shownEntry d nodeValue = some value) :
    OwnLeaves value ∧ value.isObject = false := by
  cases nodeValue with
  | value v =>
    cases h
    exact ⟨.leaf (.inl rfl), rfl⟩
  | node m => cases h
  | deletedEntry blockHeight =>
    rw [shownEntry] at h
    split at h
    · cases h
      exact ⟨.leaf (.inr rfl), rfl⟩
    · cases h

/-- What `keys` makes of an entry that is shown, or not. -/
def setTrue (shown : JsonMap) (key : String) (entry : Option Json) : JsonMap :=
  entry.elim shown fun _ => jsonMapSetValue shown key (.bool true)

/-- A value is put under a key where no object is. -/
theorem setKey_simulated_of_leaf (d : Option Bool) (nodeValue : NodeValue)
    (h : OwnLeaves (.object res))
    (hleaf : ∀ value, find key res = some value → value.isObject = false) :
    ∃ res', jsonMapSetKey { returnDeleted := d } res key nodeValue = .ok res' ∧
      OwnLeaves (.object res') ∧ Json.mapFields leafTrue res' =
        (shownEntry d nodeValue).elim (Json.mapFields leafTrue res) fun _ =>
          write key (.bool true) (Json.mapFields leafTrue res) := by
  rw [jsonMapSetKey_eq, newValue_eq, ok_bind]
  cases hfind : find key res with
  | none =>
    cases hentry : shownEntry d nodeValue with
    | none => exact ⟨res, congrArg Except.ok (List.append_nil res), h, rfl⟩
    | some value =>
      obtain ⟨hvalue, hobject⟩ := ownLeaves_of_shownEntry hentry
      refine ⟨write key value res, ?_, h.write hvalue fun _ => hobject, ?_⟩
      · rw [write_of_find_none hfind]
        rfl
      · rw [← Json.write_mapFields, hvalue.mapLeaves_eq_true hobject]
        rfl
  | some value =>
    -- The value that is there is left, and `true` is written over `true`.
    have hobject := hleaf value hfind
    have htrue := (h.field hfind).mapLeaves_eq_true hobject
    refine ⟨res, ?_, h, ?_⟩
    · simp only [jsonSetOwnKey_of_leaf hobject, ok_bind, write_of_find hfind]
      rfl
    · have hwrite : write key (.bool true) (Json.mapFields leafTrue res) =
          Json.mapFields leafTrue res := by
        refine write_of_find ?_
        rw [Json.find_mapFields, hfind, Option.map_some, htrue]
      rw [hwrite]
      cases shownEntry d nodeValue <;> rfl

/-- `true` is written where no object is. -/
theorem jsonMapSetValue_true (h : OwnLeaves (.object res))
    (hleaf : ∀ value, find key res = some value → value.isObject = false) :
    jsonMapSetValue (Json.mapFields leafTrue res) key (.bool true) =
      write key (.bool true) (Json.mapFields leafTrue res) := by
  cases hfind : find key res with
  | none =>
    have hshown : find key (Json.mapFields leafTrue res) = none := by
      rw [Json.find_mapFields, hfind, Option.map_none]
    simp only [jsonMapSetValue, hshown]
  | some value =>
    have hshown : find key (Json.mapFields leafTrue res) = some (.bool true) := by
      rw [Json.find_mapFields, hfind, Option.map_some,
        (h.field hfind).mapLeaves_eq_true (hleaf value hfind)]
    rw [jsonMapSetValue_of_leaf hshown rfl, write_of_find hshown]

/-- **A value that joins what is there** is shown as `true`, or not at all. -/
theorem setKey_simulated (d : Option Bool) (nodeValue : NodeValue) (h : ShownTrue res shown)
    (key : String) :
    ∃ res', jsonMapSetKey { returnDeleted := d } res key nodeValue = .ok res' ∧
      ShownTrue res' (setTrue shown key (shownEntry d nodeValue)) := by
  obtain ⟨hres, rfl⟩ := h
  by_cases hobject : ∃ o, find key res = some (.object o)
  · obtain ⟨o, hfind⟩ := hobject
    have ho : OwnLeaves (.object o) := hres.field hfind
    have hkey : key ≠ EMPTY_KEY := by
      rintro rfl
      cases hres.own hfind
    have hshown : find key (Json.mapFields leafTrue res) =
        some (.object (Json.mapFields leafTrue o)) := by
      rw [Json.find_mapFields, hfind, Option.map_some, Json.mapLeaves_object]
    obtain ⟨o', hset, ho', htrue⟩ := setKey_simulated_of_leaf d nodeValue ho fun _ => ho.own
    refine ⟨write key (.object o') res, ?_, hres.write ho' fun heq => absurd heq hkey, ?_⟩
    · exact (jsonMapSetKey_of_object hfind).mpr ⟨o', hset, rfl⟩
    · rw [← Json.write_mapFields, Json.mapLeaves_object, htrue]
      cases shownEntry d nodeValue with
      | none => exact (write_of_find hshown).symm
      | some value =>
        simp only [setTrue, Option.elim, jsonMapSetValue, hshown]
  · have hleaf : ∀ value, find key res = some value → value.isObject = false := by
      intro value hfind
      refine value.exists_object_or_leaf.resolve_left ?_
      rintro ⟨o, rfl⟩
      exact hobject ⟨o, hfind⟩
    obtain ⟨res', hset, hres', htrue⟩ := setKey_simulated_of_leaf d nodeValue hres hleaf
    refine ⟨res', hset, hres', ?_⟩
    rw [htrue]
    cases shownEntry d nodeValue with
    | none => rfl
    | some value => exact jsonMapSetValue_true hres hleaf

theorem setKey_simulates (d : Option Bool) (nodeValue : NodeValue) (h : ShownTrue res shown)
    (key : String) : Simulates ShownTrue (jsonMapSetKey { returnDeleted := d } res key nodeValue)
      (pure (setTrue shown key (shownEntry d nodeValue))) := by
  intro res' hset
  obtain ⟨res'', hset', hshown⟩ := setKey_simulated d nodeValue h key
  cases hset.symm.trans hset'
  exact ⟨_, rfl, hshown⟩

end Steps

/-! ## Patterns -/

section Patterns

variable {c : Contract} {node : Node} {n : NodeId} {key : String} {keys path : List String}
  {steps : ℕ} {res shown : JsonMap} {d : Option Bool}

/-- The options of `keys` that match values only. -/
def valueKeys (d : Option Bool) : KeysOptions := { returnDeleted := d, valuesOnly := some true }

theorem getD_false_iff : d.getD false = true ↔ d = some true := by
  rw [Option.getD_eq_iff]
  simp

/-- What `keys` shows for a node is what is shown of its own entry. -/
theorem keysNodeValue_eq {m : NodeId} {child : Node} (hchild : c.internalUnwrapNode m = .ok child)
    (hown : ∀ nodeValue, child.children.get EMPTY_KEY = some nodeValue →
      HasTarget.target nodeValue = none)
    (d : Option Bool) :
    c.keysNodeValue (valueKeys d) m = .ok (((child.children.get EMPTY_KEY).bind (shownEntry d)).map
      fun _ => .bool true) := by
  simp only [Contract.keysNodeValue, valueKeys, Option.getD_some, if_true, hchild, ok_bind]
  cases hentry : child.children.get EMPTY_KEY with
  | none => rfl
  | some nodeValue =>
    cases nodeValue with
    | node m => cases hown _ hentry
    | value v =>
      simp only [or_true, if_true]
      rfl
    | deletedEntry blockHeight =>
      simp only [getD_false_iff, Bool.true_eq_false, or_false, Option.bind_some, shownEntry]
      split <;> rfl

/-- **A matched entry** adds to both. -/
theorem keysEntry_simulates (hsound : c.Sound) (hfree : ∀ n, c.forest.Free n EMPTY_KEY)
    (hnode : c.Holds n node) {k : String} {nodeValue : NodeValue}
    (hentry : node.children.get k = some nodeValue) (hkey : key ≠ RECURSIVE_STAR)
    {recursiveGet : JsonMap → Node → List String → Exec JsonMap}
    {recursiveKeys : JsonMap → Node → Exec JsonMap}
    (hrec : ∀ m child res shown, c.Holds m child → ShownTrue res shown →
      Simulates ShownTrue (recursiveGet res child keys) (recursiveKeys shown child))
    (h : ShownTrue res shown) :
    Simulates ShownTrue (c.getEntry { returnDeleted := d } key keys recursiveGet res (k, nodeValue))
      (c.keysEntry (valueKeys d) keys recursiveKeys shown (k, nodeValue)) := by
  cases nodeValue with
  | node m =>
    obtain ⟨child, hchild, hholds, -, -⟩ := hsound.exists_child hnode hentry
    have hk : k ≠ EMPTY_KEY := by
      rintro rfl
      cases hfree n _ ((hnode EMPTY_KEY).trans hentry)
    simp only [Contract.getEntry, Contract.keysEntry, hchild, ok_bind, hkey, decide_false, or_false,
      Bool.false_eq_true, if_false, reduceCtorEq]
    by_cases hkeys : keys = []
    · subst hkeys
      have hown : ∀ nodeValue, child.children.get EMPTY_KEY = some nodeValue →
          HasTarget.target nodeValue = none :=
        fun nodeValue hget => hfree m _ ((hholds EMPTY_KEY).trans hget)
      simp only [ne_eq, not_true_eq_false, if_false, if_true, keysNodeValue_eq hchild hown, ok_bind]
      cases child.children.get EMPTY_KEY with
      | none => exact .pure h
      | some nodeValue =>
        have hset := setKey_simulates d nodeValue h k
        rw [setTrue] at hset
        simp only [Option.bind_some, Option.elim_map]
        exact hset
    · simp only [ne_eq, hkeys, not_false_eq_true, if_true, if_false, pure_bind]
      refine (hrec m child _ _ hholds (h.innerObject k)).bind fun o o' ho => ?_
      exact .pure (h.write hk ho)
  | value v =>
    simp only [Contract.getEntry, Contract.keysEntry]
    split
    · exact setKey_simulates d (.value v) h k
    · exact .pure h
  | deletedEntry blockHeight =>
    simp only [Contract.getEntry, Contract.keysEntry]
    by_cases hkeys : keys = []
    -- A mark of a deleted value is shown by both, or by none of them.
    · have hset := setKey_simulates d (.deletedEntry blockHeight) h k
      simp only [hkeys, valueKeys, getD_false_iff, true_and, if_true]
      rw [shownEntry] at hset
      split at hset
      · next hd =>
        rw [if_pos hd]
        exact hset
      · next hd =>
        rw [if_neg hd]
        exact hset
    · simp only [hkeys, false_and, if_false]
      exact .pure h

/-- **The keys below a node** that match a pattern are found as the values are. -/
theorem recursiveKeys_simulates (hsound : c.Sound) (hfree : ∀ n, c.forest.Free n EMPTY_KEY)
    (hnode : c.Holds n node) (hstar : RECURSIVE_STAR ∉ path) (h : ShownTrue res shown) :
    Simulates ShownTrue (c.recursiveGet { returnDeleted := d } steps res node path)
      (c.recursiveKeys (valueKeys d) path shown node) := by
  induction steps generalizing n node res shown path with
  | zero => exact .error _ _
  | succ steps ih =>
    cases path with
    | nil => exact .error _ _
    | cons key keys =>
      rw [List.mem_cons, not_or] at hstar
      have hkey : key ≠ RECURSIVE_STAR := Ne.symm hstar.1
      have hensure : ensure (decide (key = RECURSIVE_STAR) = true → keys = []) SUFFIX_ONLY = .ok () :=
        ensure_of fun heq => absurd (of_decide_eq_true heq) hkey
      simp only [Contract.recursiveGet, hensure, ok_bind, Contract.recursiveKeys]
      simp only [hkey, decide_false, Bool.or_false, reduceCtorEq, if_false]
      refine .foldlM (fun entry hmem res shown h => ?_) h
      obtain ⟨k, nodeValue⟩ := entry
      refine keysEntry_simulates hsound hfree hnode (mem_matchedEntries hmem) hkey ?_ h
      intro m child res shown hchild h
      exact ih hchild hstar.2 h

theorem keysKey_simulates (hsound : c.Sound) (hfree : ∀ n, c.forest.Free n EMPTY_KEY) {pattern : String}
    (hstar : RECURSIVE_STAR ∉ splitPath pattern) (h : ShownTrue res shown) :
    Simulates ShownTrue (c.getKey { returnDeleted := d } res pattern)
      (c.keysKey (valueKeys d) shown pattern) := by
  unfold Contract.getKey Contract.keysKey
  cases hpath : patternPath pattern with
  | none => exact .pure h
  | some path =>
    refine recursiveKeys_simulates hsound hfree c.holds_rootNode (fun hmem => hstar ?_) h
    rw [(patternPath_eq_some.mp hpath).1] at hmem
    exact mem_of_mem_stem hmem

end Patterns

/-! ## Cleaning up -/

mutual

/-- A value is cleaned up as the one with `true` for its leaves. -/
theorem jsonCleanup_mapLeaves : ∀ value : Json,
    jsonCleanup (value.mapLeaves leafTrue) = (jsonCleanup value).map (Json.mapLeaves leafTrue)
  | .object o => by
    have hcleanup := cleanup_mapFields o
    simp only [Json.mapLeaves, jsonCleanup, hcleanup]
    have hcount : (Json.mapFields leafTrue (jsonMapRecursiveCleanup o)).countP
        (fun field => isSpecialKey field.1) =
          (jsonMapRecursiveCleanup o).countP fun field => isSpecialKey field.1 := by
      rw [Json.mapFields_eq_map, List.countP_map]
      rfl
    rw [hcount, Json.mapFields_eq_map, List.length_map, ← Json.mapFields_eq_map]
    split
    · rw [Option.map_some, Json.mapLeaves_object]
    · rfl
  | .null | .bool _ | .number _ _ | .string _ => by
    simp only [Json.mapLeaves, leafTrue, jsonCleanup, Option.map_some]
  | .array elements => by simp only [Json.mapLeaves, jsonCleanup, Option.map_some]

theorem cleanup_mapFields : ∀ res : JsonMap, jsonMapRecursiveCleanup (Json.mapFields leafTrue res) =
    Json.mapFields leafTrue (jsonMapRecursiveCleanup res)
  | [] => by simp only [Json.mapFields, jsonMapRecursiveCleanup]
  | (key, value) :: res => by
    have hvalue := jsonCleanup_mapLeaves value
    have hres := cleanup_mapFields res
    rw [Json.mapFields, jsonMapRecursiveCleanup, jsonMapRecursiveCleanup, hres]
    split
    · rw [Json.mapFields]
    · rw [hvalue]
      cases jsonCleanup value with
      | none => rfl
      | some value => simp only [Option.map_some, Json.mapFields]

end

/-- **`keys` agrees with `get`** where no node is under an empty key. For patterns without `**`, the
keys of values are what `get` returns with `true` for each string and null. -/
theorem keys_eq_get (host : Host) (start : Env) (calls : List Call) (patterns : List String)
    (d : Option Bool) (hfree : ∀ n, ((system host).run (.new start) calls).forest.Free n EMPTY_KEY)
    (hstar : ∀ pattern ∈ patterns, RECURSIVE_STAR ∉ splitPath pattern) :
    let c := (system host).run (.new start) calls
    ∃ res, c.get patterns (some { returnDeleted := d }) = .ok res ∧
      c.keys patterns (some { valuesOnly := some true, returnDeleted := d }) =
        .ok (res.mapLeaves leafTrue) := by
  intro c
  have hsound : c.Sound := sound_run host start calls
  have havoids : Avoids (fun _ => True) (c.get patterns (some { returnDeleted := d })) := by
    refine get_avoids hsound fun _ pattern hpattern path hpath hmem => hstar pattern hpattern ?_
    rw [(patternPath_eq_some.mp hpath).1] at hmem
    exact mem_of_mem_stem (List.mem_of_mem_dropLast hmem)
  obtain ⟨res, hget⟩ := havoids.exists_eq_ok
  refine ⟨res, hget, ?_⟩
  simp only [Contract.get, Option.getD_some, bind_eq_ok, pure_eq_ok] at hget
  obtain ⟨fields, hfold, rfl⟩ := hget
  have hfolds : Simulates ShownTrue (patterns.foldlM (c.getKey { returnDeleted := d }) [])
      (patterns.foldlM (c.keysKey (valueKeys d)) []) :=
    .foldlM (fun pattern hpattern _ _ h =>
      keysKey_simulates hsound hfree (hstar pattern hpattern) h) .nil
  obtain ⟨shown, hshown, -, rfl⟩ := hfolds fields hfold
  have hkeys : patterns.foldlM (c.keysKey { valuesOnly := some true, returnDeleted := d }) [] =
      .ok (Json.mapFields leafTrue fields) := hshown
  simp only [Contract.keys, Option.getD_some, hkeys, ok_bind, cleanup_mapFields, Json.mapLeaves_object]
  rfl

theorem keys_eq_get_sampleOwnValue :
    let c := (system sampleHost).run (.new (sampleEnv "social" 0 (by decide)))
      [sampleLive, sampleValue, sampleOwnValue]
    ∃ res, c.get ["alice", "*/*"] (some { returnDeleted := some true }) = .ok res ∧
      c.keys ["alice", "*/*"] (some { valuesOnly := some true, returnDeleted := some true }) =
        .ok (res.mapLeaves leafTrue) :=
  keys_eq_get sampleHost (sampleEnv "social" 0 (by decide))
    [sampleLive, sampleValue, sampleOwnValue] ["alice", "*/*"] (some true) (free_run _ _ _ (by decide +kernel)) (by decide +kernel)

end UncContracts.Social
