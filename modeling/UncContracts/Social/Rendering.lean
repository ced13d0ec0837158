import UncContracts.Sdk.JsonView
import UncContracts.Social.NodeGraph
import UncContracts.Social.Reading

/-!
# What a read makes of its patterns

Reading merges values into one object, whose fields change their shape with what joins them. Seen as
maps, what a pattern makes of a field depends on the field alone: the field becomes an object if the
pattern goes through the node under it, and an own value joins what is there.

## Main definitions

* `JsonView.inner`, `JsonView.join`: the object under a key, and a value that joins what is there
* `Contract.fieldRead`: what a pattern makes of a field
* `Draws`, `Fails`: a step that changes the fields in a way, and one that fails whatever they are
* `cleanedView`: a value without the objects that have no field of their own

## Main results

* `recursiveGet_renders`: reading a pattern changes each field on its own, or fails
* `cleanup_isView`: what cleaning up makes of an object
* `get_of_draws`: what a read returns
-/

namespace UncContracts

open Foundation UnorderedMap

namespace JsonView

open Social (EMPTY_KEY)

/-- The fields of the object under a key. A value that is there moves under the empty key. -/
def inner : JsonView → String → JsonView
  | .absent => noFields
  | .leaf value => Function.update noFields EMPTY_KEY (.leaf value)
  | .object fields => fields

/-- A value joins what is there: it stays as it is, and an object takes the value under the empty key. -/
def join (new : JsonView) : JsonView → JsonView
  | .absent => new
  | .leaf value => .leaf value
  | .object fields => .object (Function.update fields EMPTY_KEY (join new (fields EMPTY_KEY)))

/-- Nothing joins. -/
theorem join_absent (view : JsonView) : join .absent view = view := by
  induction view with
  | absent => rfl
  | leaf value => rfl
  | object fields ih => rw [join, ih, Function.update_eq_self]

end JsonView

namespace Social

variable {options : GetOptions} {res res' : JsonMap} {key : String} {nodeValue : NodeValue}
  {fields : String → JsonView}

/-- The view of a value, with its height if this is to be shown. -/
def GetOptions.valueView (options : GetOptions) (value : Json) (blockHeight : ℕ) : JsonView :=
  if options.withBlockHeight = some true then
    .object (Function.update (Function.update JsonView.noFields
      KEY_BLOCK_HEIGHT (.leaf (jsonNumber blockHeight))) EMPTY_KEY (.leaf value))
  else .leaf value

/-- The view of an entry, if it is to be shown. -/
def GetOptions.entryView (options : GetOptions) : NodeValue → JsonView
  | .value v => options.valueView (.string v.value) v.blockHeight
  | .deletedEntry blockHeight =>
    if options.returnDeleted = some true then options.valueView .null blockHeight else .absent
  | .node _ => .absent

/-- A value with its height. -/
theorem isView_withHeight {value : Json} (blockHeight : ℕ) (h : value.isObject = false) :
    (Json.object [(KEY_BLOCK_HEIGHT, jsonNumber blockHeight), (EMPTY_KEY, value)]).IsView
      (.object (Function.update (Function.update JsonView.noFields
        KEY_BLOCK_HEIGHT (.leaf (jsonNumber blockHeight))) EMPTY_KEY (.leaf value))) := by
  have hheight : Json.IsView (.object (write KEY_BLOCK_HEIGHT (jsonNumber blockHeight) [])) _ :=
    Json.IsView.noFields.write (.leaf rfl)
  have hvalue : Json.IsView (.object (write EMPTY_KEY value (write KEY_BLOCK_HEIGHT _ []))) _ :=
    hheight.write (.leaf h)
  exact hvalue

/-- An entry that is shown is seen as its view. -/
theorem newValue_isView (options : GetOptions) (nodeValue : NodeValue) :
    options.newValue nodeValue = .ok none ∧ options.entryView nodeValue = .absent ∨
      ∃ value, options.newValue nodeValue = .ok (some value) ∧
        value.IsView (options.entryView nodeValue) := by
  cases nodeValue with
  | node m => exact .inl ⟨rfl, rfl⟩
  | value v =>
    right
    simp only [GetOptions.newValue, GetOptions.entryView, GetOptions.valueView]
    split
    · exact ⟨_, rfl, isView_withHeight v.blockHeight rfl⟩
    · exact ⟨_, rfl, .leaf rfl⟩
  | deletedEntry blockHeight =>
    simp only [GetOptions.newValue, GetOptions.entryView, GetOptions.valueView]
    by_cases hdeleted : options.returnDeleted = some true
    · right
      simp only [if_pos hdeleted]
      split
      · exact ⟨_, rfl, isView_withHeight blockHeight rfl⟩
      · exact ⟨_, rfl, .leaf rfl⟩
    · simp only [if_neg hdeleted]
      exact .inl ⟨rfl, trivial⟩

theorem join_valueView (options : GetOptions) (value : Json) (blockHeight : ℕ) (new : JsonView) :
    new.join (options.valueView value blockHeight) = options.valueView value blockHeight := by
  unfold GetOptions.valueView
  split
  · rw [JsonView.join, Function.update_self, JsonView.join, Function.update_idem]
  · rfl

/-- Nothing changes an entry that is shown. -/
theorem join_entryView (options : GetOptions) (nodeValue : NodeValue) :
    (options.entryView nodeValue).join (options.entryView nodeValue) = options.entryView nodeValue := by
  cases nodeValue with
  | node m => rfl
  | value v => exact join_valueView options _ _ _
  | deletedEntry blockHeight =>
    rw [GetOptions.entryView]
    split
    · exact join_valueView options _ _ _
    · rfl

/-- The object under a key is seen as the object under the key. -/
theorem innerObject_isView (h : Json.IsView (.object res) (.object fields)) (key : String) :
    Json.IsView (.object (jsonMapGetInnerObject res key)) (.object (fields key).inner) := by
  cases hfind : find key res with
  | none =>
    simp only [jsonMapGetInnerObject, hfind, h.absent hfind]
    exact .noFields
  | some value =>
    have hvalue := h.field hfind
    rcases value.exists_object_or_leaf with ⟨o, rfl⟩ | hleaf
    · obtain ⟨inner, hinner⟩ := hvalue.exists_fields
      rw [jsonMapGetInnerObject_of_object hfind, hinner]
      exact hinner ▸ hvalue
    · rw [jsonMapGetInnerObject_of_leaf hfind hleaf, hvalue.eq_leaf hleaf]
      exact Json.IsView.noFields.write (.leaf hleaf)

/-- A value is put under a key where nothing is, or joins what is there. -/
theorem setKey_isView_of_field (options : GetOptions) (nodeValue : NodeValue)
    (h : Json.IsView (.object res) (.object fields))
    (hfield : ∀ value, find key res = some value → ∃ value',
      jsonSetOwnKey options value nodeValue = .ok value' ∧
        value'.IsView ((options.entryView nodeValue).join (fields key))) :
    ∃ res', jsonMapSetKey options res key nodeValue = .ok res' ∧ Json.IsView (.object res')
      (.object (Function.update fields key ((options.entryView nodeValue).join (fields key)))) := by
  rw [jsonMapSetKey_eq]
  cases hfind : find key res with
  | none =>
    rw [h.absent hfind]
    rcases newValue_isView options nodeValue with ⟨hnew, hview⟩ | ⟨value, hnew, hview⟩
    · refine ⟨res, by simp [hnew], ?_⟩
      rw [hview, JsonView.join, ← h.absent hfind, Function.update_eq_self]
      exact h
    · refine ⟨write key value res, ?_, h.write hview⟩
      simp [hnew, write_of_find_none hfind]
  | some value =>
    obtain ⟨value', hvalue', hview⟩ := hfield value hfind
    exact ⟨write key value' res, by simp [hvalue'], h.write hview⟩

/-- A value that is put under a key joins what is there. -/
theorem setOwnKey_isView (options : GetOptions) (nodeValue : NodeValue) {value : Json} {view : JsonView}
    (h : value.IsView view) : ∃ value', jsonSetOwnKey options value nodeValue = .ok value' ∧
      value'.IsView ((options.entryView nodeValue).join view) := by
  induction h with
  | leaf hleaf => exact ⟨_, jsonSetOwnKey_of_leaf hleaf, .leaf hleaf⟩
  | object nodup habsent hfield ih =>
    obtain ⟨res', hset, hview⟩ := setKey_isView_of_field options nodeValue
      (.object nodup habsent hfield) (fun value hfind => ih EMPTY_KEY value hfind)
    refine ⟨.object res', ?_, hview⟩
    rw [jsonSetOwnKey, hset]
    rfl

theorem setKey_isView (options : GetOptions) (nodeValue : NodeValue)
    (h : Json.IsView (.object res) (.object fields)) (key : String) :
    ∃ res', jsonMapSetKey options res key nodeValue = .ok res' ∧ Json.IsView (.object res')
      (.object (Function.update fields key ((options.entryView nodeValue).join (fields key)))) :=
  setKey_isView_of_field options nodeValue h fun _ hfind =>
    setOwnKey_isView options nodeValue (h.field hfind)

/-! ## Reading a pattern -/

/-- What is left of a pattern below a key that it goes through. -/
def residual (key : String) (keys : List String) : Option (List String) :=
  if keys = [] then if key = RECURSIVE_STAR then some [RECURSIVE_STAR] else none
  else some keys

/-- A part of a pattern reads the entry of a key. -/
def PartReads (key k : String) : Prop := key = STAR ∨ key = RECURSIVE_STAR ∨ key = k

instance (key k : String) : Decidable (PartReads key k) :=
  inferInstanceAs (Decidable (key = STAR ∨ key = RECURSIVE_STAR ∨ key = k))

/-- A field of a node that is read has the height and the number of the node under their keys. -/
def GetOptions.nodeView (options : GetOptions) (node : Node) (k : String) (view : JsonView) : JsonView :=
  if options.withNodeId = some true ∧ k = KEY_NODE_ID then .leaf (jsonNumber node.nodeId)
  else if options.withBlockHeight = some true ∧ k = KEY_BLOCK_HEIGHT then
    .leaf (jsonNumber node.blockHeight)
  else view

/-- The own entry of a node joins what is under its key. -/
def GetOptions.ownRead (options : GetOptions) (child : Node) (view : JsonView) : JsonView :=
  match child.children.get EMPTY_KEY with
  | none => view
  | some nodeValue => (options.entryView nodeValue).join
      (if options.withNodeId = some true then
        .object (Function.update view.inner KEY_NODE_ID (.leaf (jsonNumber child.nodeId)))
      else view)

namespace Contract

/-- What a matched entry makes of its field, where `keys` is the rest of the pattern. -/
def entryRead (c : Contract) (options : GetOptions) (key : String) (keys : List String)
    (fieldRead : Node → List String → String → JsonView → JsonView) : NodeValue → JsonView → JsonView
  | .node m, view =>
    match c.internalUnwrapNode m with
    | .error _ => view
    | .ok child =>
      match residual key keys with
      | some path => .object fun k => fieldRead child path k (view.inner k)
      | none => options.ownRead child view
  | nodeValue, view => if keys = [] then (options.entryView nodeValue).join view else view

/-- What reading a pattern below a node makes of a field. -/
def fieldRead (c : Contract) (options : GetOptions) :
    ℕ → Node → List String → String → JsonView → JsonView
  | 0, _, _, _, view => view
  | _ + 1, _, [], _, view => view
  | steps + 1, node, key :: keys, k, view =>
    if key = RECURSIVE_STAR ∧ keys ≠ [] then view
    else
      match node.children.get k with
      | none => options.nodeView node k view
      | some nodeValue =>
        if PartReads key k then
          c.entryRead options key keys (c.fieldRead options steps) nodeValue (options.nodeView node k view)
        else options.nodeView node k view

end Contract

/-- A step that builds an object fails with one message, whatever its fields are. -/
def Fails (f : JsonMap → Exec JsonMap) : Prop :=
  ∃ msg, ∀ res fields, Json.IsView (.object res) (.object fields) → f res = .error msg

/-- A step that builds an object changes its fields in a way. -/
def Draws (f : JsonMap → Exec JsonMap) (g : (String → JsonView) → String → JsonView) : Prop :=
  ∀ res fields, Json.IsView (.object res) (.object fields) →
    ∃ res', f res = .ok res' ∧ Json.IsView (.object res') (.object (g fields))

/-- A step draws, unless it fails. -/
def Renders (f : JsonMap → Exec JsonMap) (g : (String → JsonView) → String → JsonView) : Prop :=
  Fails f ∨ Draws f g

section Steps

variable {f f' : JsonMap → Exec JsonMap} {g g' : (String → JsonView) → String → JsonView} {α : Type}
  {step : JsonMap → α → Exec JsonMap} {change : (String → JsonView) → α → String → JsonView} {l : List α}

theorem Fails.error (msg : String) : Fails fun _ => .error msg := ⟨msg, fun _ _ _ => rfl⟩

theorem Fails.bind (h : Fails f) : Fails fun res => f res >>= f' := by
  obtain ⟨msg, hfail⟩ := h
  refine ⟨msg, fun res fields hview => ?_⟩
  show f res >>= f' = _
  rw [hfail res fields hview]
  rfl

theorem Draws.bind_fails (h : Draws f g) (h' : Fails f') : Fails fun res => f res >>= f' := by
  obtain ⟨msg, hfail⟩ := h'
  refine ⟨msg, fun res fields hview => ?_⟩
  obtain ⟨res', hf, hview'⟩ := h res fields hview
  show f res >>= f' = _
  rw [hf, ok_bind, hfail res' _ hview']

theorem Draws.bind (h : Draws f g) (h' : Draws f' g') :
    Draws (fun res => f res >>= f') fun fields => g' (g fields) := by
  intro res fields hview
  obtain ⟨res', hf, hview'⟩ := h res fields hview
  obtain ⟨res'', hf', hview''⟩ := h' res' _ hview'
  refine ⟨res'', ?_, hview''⟩
  show f res >>= f' = _
  rw [hf, ok_bind, hf']

theorem Draws.pure (hg : ∀ fields, g fields = fields) : Draws (fun res => Pure.pure res) g := by
  intro res fields h
  refine ⟨res, rfl, ?_⟩
  rw [hg]
  exact h

/-- A fold draws what its steps draw. -/
theorem Draws.foldlM (h : ∀ a ∈ l, Draws (fun res => step res a) fun fields => change fields a) :
    Draws (fun res => l.foldlM step res) fun fields => l.foldl change fields := by
  induction l with
  | nil => exact .pure fun _ => rfl
  | cons a l ih =>
    rw [List.forall_mem_cons] at h
    exact h.1.bind (ih h.2)

/-- A fold fails if a step of it does. -/
theorem Fails.foldlM (h : ∀ a ∈ l, Renders (fun res => step res a) fun fields => change fields a)
    {a : α} (ha : a ∈ l) (hfail : Fails fun res => step res a) :
    Fails fun res => l.foldlM step res := by
  induction l with
  | nil => cases ha
  | cons b l ih =>
    rw [List.forall_mem_cons] at h
    rcases h.1 with hfirst | hfirst
    · exact hfirst.bind
    · rcases List.mem_cons.mp ha with rfl | ha
      · exact hfail.bind
      · exact hfirst.bind_fails (ih h.2 ha)

namespace Renders

theorem pure (hg : ∀ fields, g fields = fields) : Renders (fun res => Pure.pure res) g :=
  .inr (.pure hg)

theorem error (msg : String) : Renders (fun _ => .error msg) g := .inl (.error msg)

theorem congr (h : Renders f g) (hg : ∀ fields, g fields = g' fields) : Renders f g' :=
  funext hg ▸ h

/-- A step after a step. -/
theorem bind (h : Renders f g) (h' : Renders f' g') :
    Renders (fun res => f res >>= f') fun fields => g' (g fields) := by
  rcases h with hfail | hdraws
  · exact .inl hfail.bind
  rcases h' with hfail' | hdraws'
  · exact .inl (hdraws.bind_fails hfail')
  · exact .inr (hdraws.bind hdraws')

theorem setKey (options : GetOptions) (nodeValue : NodeValue) (key : String) :
    Renders (fun res => jsonMapSetKey options res key nodeValue) fun fields =>
      Function.update fields key ((options.entryView nodeValue).join (fields key)) :=
  .inr fun _ _ h => setKey_isView options nodeValue h key

/-- A step below a key. -/
theorem below (h : Renders f g) (key : String) :
    Renders (fun res => do
      let innerMap ← f (jsonMapGetInnerObject res key)
      return write key (.object innerMap) res) fun fields =>
        Function.update fields key (.object (g (fields key).inner)) := by
  rcases h with ⟨msg, hfail⟩ | hrun
  · refine .inl ⟨msg, fun res fields hview => ?_⟩
    dsimp only
    rw [hfail _ _ (innerObject_isView hview key)]
    rfl
  · refine .inr fun res fields hview => ?_
    obtain ⟨innerMap, hf, hinner⟩ := hrun _ _ (innerObject_isView hview key)
    refine ⟨write key (.object innerMap) res, ?_, hview.write hinner⟩
    dsimp only
    rw [hf]
    rfl

theorem foldlM (h : ∀ a ∈ l, Renders (fun res => step res a) fun fields => change fields a) :
    Renders (fun res => l.foldlM step res) fun fields => l.foldl change fields := by
  induction l with
  | nil => exact pure fun _ => rfl
  | cons a l ih =>
    rw [List.forall_mem_cons] at h
    exact h.1.bind (ih h.2)

end Renders

end Steps

/-- A fold that changes the fields of distinct keys. -/
theorem foldl_update {α : Type} {change : String × α → JsonView → JsonView} {l : List (String × α)}
    (hnodup : (l.map Prod.fst).Nodup) (fields : String → JsonView) (k : String) :
    l.foldl (fun fields e => Function.update fields e.1 (change e (fields e.1))) fields k =
      (find k l).elim (fields k) fun value => change (k, value) (fields k) := by
  induction l generalizing fields with
  | nil => rfl
  | cons e l ih =>
    rw [List.map_cons, List.nodup_cons] at hnodup
    rw [List.foldl_cons, ih hnodup.2]
    by_cases hk : e.1 = k
    · subst hk
      rw [find_eq_none.mpr hnodup.1, find, if_pos rfl, Option.elim_none, Option.elim_some,
        Function.update_self]
    · rw [Function.update_of_ne (Ne.symm hk), find, if_neg hk]

section Reads

variable {c : Contract} {node : Node} {keys path : List String} {steps : ℕ}

/-- The own entry of a node joins the field of its key. -/
theorem ownEntry_renders (options : GetOptions) (child : Node) (k : String) :
    Renders (fun res => match child.children.get EMPTY_KEY with
      | some nodeValue =>
        jsonMapSetKey options (if options.withNodeId = some true then
          write k (.object (write KEY_NODE_ID (jsonNumber child.nodeId) (jsonMapGetInnerObject res k))) res
          else res) k nodeValue
      | none => return res) fun fields => Function.update fields k (options.ownRead child (fields k)) := by
  unfold GetOptions.ownRead
  cases child.children.get EMPTY_KEY with
  | none => exact .pure fun fields => Function.update_eq_self k fields
  | some nodeValue =>
    by_cases hid : options.withNodeId = some true
    · simp only [if_pos hid]
      refine .inr fun res fields hview => ?_
      have hinner : Json.IsView (.object (write KEY_NODE_ID (jsonNumber child.nodeId)
          (jsonMapGetInnerObject res k))) _ := (innerObject_isView hview k).write (.leaf rfl)
      obtain ⟨res', hset, hview'⟩ := setKey_isView options nodeValue (hview.write hinner) k
      refine ⟨res', hset, ?_⟩
      rwa [Function.update_self, Function.update_idem] at hview'
    · simp only [if_neg hid]
      exact .setKey options nodeValue k

/-- A matched entry changes the field of its key. -/
theorem getEntry_renders (hstar : key = RECURSIVE_STAR → keys = [])
    {recursiveGet : JsonMap → Node → List String → Exec JsonMap}
    {fieldRead : Node → List String → String → JsonView → JsonView}
    (hrec : ∀ child path, Renders (fun res => recursiveGet res child path)
      fun fields k => fieldRead child path k (fields k)) (entry : String × NodeValue) :
    Renders (fun res => c.getEntry options key keys recursiveGet res entry) fun fields =>
      Function.update fields entry.1
        (c.entryRead options key keys fieldRead entry.2 (fields entry.1)) := by
  obtain ⟨k, nodeValue⟩ := entry
  have hvalue : ∀ nodeValue, Renders
      (fun res => if keys = [] then jsonMapSetKey options res k nodeValue else return res) fun fields =>
        Function.update fields k
          (if keys = [] then (options.entryView nodeValue).join (fields k) else fields k) := by
    intro nodeValue
    by_cases hkeys : keys = []
    · simp only [if_pos hkeys]
      exact .setKey options nodeValue k
    · simp only [if_neg hkeys]
      exact .pure fun fields => Function.update_eq_self k fields
  cases nodeValue with
  | value v => exact hvalue (.value v)
  | deletedEntry blockHeight => exact hvalue (.deletedEntry blockHeight)
  | node m =>
    simp only [Contract.getEntry, Contract.entryRead]
    cases hchild : c.internalUnwrapNode m with
    | error msg => exact .error msg
    | ok child =>
      simp only [ok_bind]
      by_cases hkeys : keys = []
      · subst hkeys
        by_cases hkey : key = RECURSIVE_STAR
        · subst hkey
          simp only [residual, decide_true, ne_eq, not_true_eq_false, or_true, if_true, if_false,
            pure_bind]
          exact (hrec child [RECURSIVE_STAR]).below k
        · simp only [residual, hkey, decide_false, ne_eq, not_true_eq_false, Bool.false_eq_true,
            or_self, if_true, if_false]
          exact ownEntry_renders options child k
      · have hkey : key ≠ RECURSIVE_STAR := fun heq => hkeys (hstar heq)
        simp only [residual, hkeys, hkey, decide_false, ne_eq, not_false_eq_true, true_or, if_true,
          Bool.false_eq_true, if_false, pure_bind]
        exact (hrec child keys).below k

/-- A number is written under a key, if it is to be shown. -/
theorem writeNumber_renders (shown : Prop) [Decidable shown] (key : String) (n : ℕ) :
    Renders (fun res => pure (if shown then write key (jsonNumber n) res else res)) fun fields k =>
      if shown ∧ k = key then .leaf (jsonNumber n) else fields k := by
  refine .inr fun res fields hview => ⟨_, rfl, ?_⟩
  by_cases hshown : shown
  · simp only [hshown, if_true, true_and]
    have hwrite : Json.IsView (.object (write key (jsonNumber n) res)) _ := hview.write (.leaf rfl)
    convert hwrite using 2
    funext k
    exact (Function.update_apply fields key _ k).symm
  · simp only [hshown, if_false, false_and]
    exact hview

theorem nodup_matchedEntries (node : Node) (key : String) (all : Bool) :
    ((node.matchedEntries key all).map Prod.fst).Nodup := by
  unfold Node.matchedEntries
  split
  · exact node.children.nodup
  · split
    · exact List.nodup_singleton _
    · exact List.nodup_nil

theorem find_matchedEntries (node : Node) (key : String) (all : Bool) (k : String) :
    find k (node.matchedEntries key all) =
      if all = true ∨ key = k then node.children.get k else none := by
  unfold Node.matchedEntries
  by_cases hall : all = true
  · rw [if_pos hall, if_pos (.inl hall)]
    rfl
  · rw [if_neg hall]
    by_cases hkey : key = k
    · rw [if_pos (.inr hkey), ← hkey]
      cases node.children.get key with
      | none => rfl
      | some value => exact if_pos rfl
    · rw [if_neg (not_or.mpr ⟨hall, hkey⟩)]
      cases node.children.get key with
      | none => rfl
      | some value => exact if_neg hkey

/-- **Reading a pattern** changes each field on its own, or fails whatever was read before. -/
theorem recursiveGet_renders (c : Contract) (options : GetOptions) (steps : ℕ) (node : Node)
    (path : List String) :
    Renders (fun res => c.recursiveGet options steps res node path) fun fields k =>
      c.fieldRead options steps node path k (fields k) := by
  induction steps generalizing node path with
  | zero => exact .error OUT_OF_STEPS
  | succ steps ih =>
    cases path with
    | nil => exact .error INDEX_OUT_OF_BOUNDS
    | cons key keys =>
      by_cases hstar : key = RECURSIVE_STAR → keys = []
      · have hensure : ensure (decide (key = RECURSIVE_STAR) = true → keys = []) SUFFIX_ONLY = .ok () :=
          ensure_of fun h => hstar (of_decide_eq_true h)
        simp only [Contract.recursiveGet, hensure, ok_bind]
        have hentry : ∀ entry ∈ node.matchedEntries key
            (decide (key = STAR) || decide (key = RECURSIVE_STAR)), Renders (fun res =>
              c.getEntry options key keys (c.recursiveGet options steps) res entry) _ :=
          fun entry _ => getEntry_renders hstar ih entry
        have hentries := Renders.foldlM hentry
        have hheight := writeNumber_renders (options.withBlockHeight = some true) KEY_BLOCK_HEIGHT
          node.blockHeight
        have hnumber := writeNumber_renders (options.withNodeId = some true) KEY_NODE_ID node.nodeId
        refine (hheight.bind (hnumber.bind hentries)).congr fun fields => funext fun k => ?_
        rw [foldl_update (nodup_matchedEntries node key _), find_matchedEntries]
        have hnot : ¬ (key = RECURSIVE_STAR ∧ keys ≠ []) := fun h => h.2 (hstar h.1)
        have hmatch : (decide (key = STAR) || decide (key = RECURSIVE_STAR)) = true ∨ key = k ↔
            PartReads key k := by
          simp only [PartReads, Bool.or_eq_true, decide_eq_true_eq, or_assoc]
        simp only [Contract.fieldRead, if_neg hnot, hmatch]
        cases node.children.get k with
        | none => split <;> rfl
        | some nodeValue => split <;> rfl
      · refine .inl ⟨SUFFIX_ONLY, fun res fields _ => ?_⟩
        have hensure : ensure (decide (key = RECURSIVE_STAR) = true → keys = []) SUFFIX_ONLY =
            .error SUFFIX_ONLY := if_neg fun h => hstar fun hkey => h (decide_eq_true hkey)
        simp only [Contract.recursiveGet, hensure]
        rfl

end Reads

/-! ## Cleaning up -/

open Classical in
/-- A value without the objects that have no field of their own. -/
noncomputable def cleanedView : JsonView → JsonView
  | .absent => .absent
  | .leaf value => .leaf value
  | .object fields =>
    if ∃ k, PlainKey k ∧ cleanedView (fields k) ≠ .absent then
      .object fun k => if isSpecialKey k = true then fields k else cleanedView (fields k)
    else .absent

/-- The fields of an object that is cleaned up. -/
noncomputable def cleanedFields (fields : String → JsonView) : String → JsonView := fun k =>
  if isSpecialKey k = true then fields k else cleanedView (fields k)

section Cleanup

variable {value : Json} {view : JsonView} {path : List String}

theorem cleanedFields_of_plain (h : PlainKey key) : cleanedFields fields key = cleanedView (fields key) :=
  if_neg (by rw [h]; exact Bool.false_ne_true)

theorem cleanedView_object (h : PlainKey key) (hne : cleanedView (fields key) ≠ .absent) :
    cleanedView (.object fields) = .object (cleanedFields fields) :=
  if_pos ⟨key, h, hne⟩

theorem cleanedView_object_eq_absent (h : ∀ k, PlainKey k → cleanedView (fields k) = .absent) :
    cleanedView (.object fields) = .absent :=
  if_neg fun ⟨k, hplain, hne⟩ => hne (h k hplain)

/-- What is at a path of plain keys is cleaned up. -/
theorem lookup_cleanedView (hplain : ∀ k ∈ path, PlainKey k) (view : JsonView) :
    (cleanedView view).lookup path = cleanedView (view.lookup path) := by
  induction path generalizing view with
  | nil => simp only [JsonView.lookup_nil]
  | cons key path ih =>
    rw [List.forall_mem_cons] at hplain
    cases view with
    | absent => simp only [cleanedView, JsonView.lookup_absent]
    | leaf value => simp only [cleanedView, JsonView.lookup_leaf]
    | object fields =>
      rw [JsonView.lookup_object, ← ih hplain.2]
      by_cases hleft : ∃ k, PlainKey k ∧ cleanedView (fields k) ≠ .absent
      · obtain ⟨k, hk, hne⟩ := hleft
        rw [cleanedView_object hk hne, JsonView.lookup_object, cleanedFields_of_plain hplain.1]
      · have hgone : ∀ k, PlainKey k → cleanedView (fields k) = .absent := fun k hk => by
          by_contra hne
          exact hleft ⟨k, hk, hne⟩
        rw [cleanedView_object_eq_absent hgone, hgone key hplain.1, JsonView.lookup_absent,
          JsonView.lookup_absent]

theorem nodup_cleanup (hnodup : (res.map Prod.fst).Nodup) :
    ((jsonMapRecursiveCleanup res).map Prod.fst).Nodup := by
  induction res with
  | nil => exact List.nodup_nil
  | cons field res ih =>
    obtain ⟨k, value⟩ := field
    rw [List.map_cons, List.nodup_cons] at hnodup
    have hnew : k ∉ (jsonMapRecursiveCleanup res).map Prod.fst :=
      fun hmem => hnodup.1 (keys_cleanup_subset res hmem)
    rw [jsonMapRecursiveCleanup]
    split
    · exact List.nodup_cons.mpr ⟨hnew, ih hnodup.2⟩
    · split
      · exact ih hnodup.2
      · exact List.nodup_cons.mpr ⟨hnew, ih hnodup.2⟩

/-- A value that is cleaned up is seen as it is, if it is left. -/
def Cleans (value : Json) (view : JsonView) : Prop :=
  jsonCleanup value = none ∧ cleanedView view = .absent ∨
    ∃ value', jsonCleanup value = some value' ∧ value'.IsView (cleanedView view)

theorem cleanup_isView_of_field (h : Json.IsView (.object res) (.object fields))
    (hfield : ∀ key value, find key res = some value → Cleans value (fields key)) :
    Json.IsView (.object (jsonMapRecursiveCleanup res)) (.object (cleanedFields fields)) := by
  refine .object (nodup_cleanup h.nodup) ?_ ?_
  · intro key hfind
    rw [find_cleanup key h.nodup] at hfind
    unfold cleanedFields
    split at hfind
    · next hspecial => rw [if_pos hspecial, h.absent hfind]
    · next hplain =>
      rw [if_neg hplain]
      cases hvalue : find key res with
      | none =>
        rw [h.absent hvalue]
        rfl
      | some value =>
        rw [hvalue, Option.bind_some] at hfind
        rcases hfield key value hvalue with ⟨-, hgone⟩ | ⟨value', hclean, -⟩
        · exact hgone
        · cases hfind.symm.trans hclean
  · intro key value' hfind
    rw [find_cleanup key h.nodup] at hfind
    unfold cleanedFields
    split at hfind
    · next hspecial =>
      rw [if_pos hspecial]
      exact h.field hfind
    · next hplain =>
      rw [if_neg hplain]
      obtain ⟨value, hvalue, hclean⟩ := Option.bind_eq_some_iff.mp hfind
      rcases hfield key value hvalue with ⟨hnone, -⟩ | ⟨value'', hclean', hview⟩
      · cases hclean.symm.trans hnone
      · cases hclean.symm.trans hclean'
        exact hview

/-- An object is left if a field of its own is left. -/
theorem jsonCleanup_object_eq (res : JsonMap) : jsonCleanup (.object res) =
    if ∃ field ∈ jsonMapRecursiveCleanup res, isSpecialKey field.1 = false then
      some (Json.object (jsonMapRecursiveCleanup res))
    else none := by
  rw [jsonCleanup]
  refine if_congr ?_ rfl rfl
  rw [(List.countP_le_length ..).lt_iff_ne, Ne, List.countP_eq_length]
  simp only [not_forall, Bool.not_eq_true, exists_prop]

theorem cleans_of_isView (h : value.IsView view) : Cleans value view := by
  induction h with
  | @leaf value hleaf =>
    refine .inr ⟨value, ?_, .leaf hleaf⟩
    cases value with
    | object o => cases hleaf
    | null | bool b | number m e | string s | array elements => rfl
  | @object o fields nodup habsent hfield ih =>
    have hview := cleanup_isView_of_field (.object nodup habsent hfield) ih
    unfold Cleans
    rw [jsonCleanup_object_eq]
    split
    · next hleft =>
      obtain ⟨field, hmem, hplain⟩ := hleft
      have hfind := (find_eq_some hview.nodup).mpr hmem
      have hne : cleanedView (fields field.1) ≠ .absent := by
        intro heq
        have hvalue := hview.field hfind
        rw [cleanedFields_of_plain hplain, heq] at hvalue
        exact hvalue.not_absent
      rw [cleanedView_object hplain hne]
      exact .inr ⟨_, rfl, hview⟩
    · next hgone =>
      refine .inl ⟨rfl, cleanedView_object_eq_absent fun k hk => ?_⟩
      have hfind : find k (jsonMapRecursiveCleanup o) = none := by
        refine find_eq_none.mpr fun hmem => hgone ?_
        obtain ⟨field, hfield, rfl⟩ := List.mem_map.mp hmem
        exact ⟨field, hfield, hk⟩
      rw [← cleanedFields_of_plain hk]
      exact hview.absent hfind

/-- An object that is cleaned up. -/
theorem cleanup_isView (h : Json.IsView (.object res) (.object fields)) :
    Json.IsView (.object (jsonMapRecursiveCleanup res)) (.object (cleanedFields fields)) :=
  cleanup_isView_of_field h fun _ _ hfind => cleans_of_isView (h.field hfind)

end Cleanup

/-! ## Reading patterns -/

namespace Contract

/-- What reading a pattern makes of the fields. -/
def patternRead (c : Contract) (options : GetOptions) (fields : String → JsonView) (pattern : String) :
    String → JsonView :=
  match patternPath pattern with
  | some path => fun k => c.fieldRead options c.nodeCount c.rootNode path k (fields k)
  | none => fields

/-- What reading patterns makes of no fields. -/
def patternsRead (c : Contract) (options : GetOptions) (patterns : List String) : String → JsonView :=
  patterns.foldl (c.patternRead options) JsonView.noFields

end Contract

section Patterns

variable {c : Contract} {pattern : String} {patterns : List String} {getOptions : Option GetOptions}

theorem patternRead_of_some {c : Contract} {options : GetOptions} {path : List String}
    (h : patternPath pattern = some path) : c.patternRead options fields pattern =
      fun k => c.fieldRead options c.nodeCount c.rootNode path k (fields k) := by
  simp only [Contract.patternRead, h]

theorem getKey_renders (c : Contract) (options : GetOptions) (pattern : String) :
    Renders (fun res => c.getKey options res pattern) fun fields =>
      c.patternRead options fields pattern := by
  unfold Contract.getKey Contract.patternRead
  cases patternPath pattern with
  | some path => exact recursiveGet_renders c options c.nodeCount c.rootNode path
  | none => exact .pure fun _ => rfl

/-- One pattern that fails makes the whole read fail. -/
theorem get_of_fails (h : c.Sound) (hpattern : pattern ∈ patterns)
    (hfail : Fails fun res => c.getKey (getOptions.getD {}) res pattern) :
    c.get patterns getOptions = .error SUFFIX_ONLY := by
  obtain ⟨msg, hfold⟩ := Fails.foldlM (fun pattern _ => getKey_renders c (getOptions.getD {}) pattern)
    hpattern hfail
  have herror : c.get patterns getOptions = .error msg := by
    have hfold : patterns.foldlM (c.getKey (getOptions.getD {})) [] = .error msg :=
      hfold [] _ .noFields
    rw [Contract.get, hfold]
    rfl
  have havoids : Avoids (· ≠ SUFFIX_ONLY) (c.get patterns getOptions) :=
    get_avoids h fun hne => absurd rfl hne
  rw [herror, not_not.mp (havoids msg herror)]

/-- **What a read returns** is what its patterns make of no fields, cleaned up. -/
theorem get_of_draws (h : ∀ pattern ∈ patterns, Draws
    (fun res => c.getKey (getOptions.getD {}) res pattern) fun fields =>
      c.patternRead (getOptions.getD {}) fields pattern) :
    ∃ res, c.get patterns getOptions = .ok res ∧
      res.IsView (.object (cleanedFields (c.patternsRead (getOptions.getD {}) patterns))) := by
  obtain ⟨res, hfold, hview⟩ := Draws.foldlM h [] _ .noFields
  refine ⟨.object (jsonMapRecursiveCleanup res), ?_, cleanup_isView hview⟩
  have hfold : patterns.foldlM (c.getKey (getOptions.getD {})) [] = .ok res := hfold
  rw [Contract.get, hfold]
  rfl

/-- A read returns if each of its patterns can be read. -/
theorem draws_of_get (hsound : c.Sound) {res : Json} (h : c.get patterns getOptions = .ok res) :
    ∀ pattern ∈ patterns, Draws (fun res => c.getKey (getOptions.getD {}) res pattern) fun fields =>
      c.patternRead (getOptions.getD {}) fields pattern := by
  intro pattern hpattern
  rcases getKey_renders c (getOptions.getD {}) pattern with hfail | hdraws
  · cases h.symm.trans (get_of_fails hsound hpattern hfail)
  · exact hdraws

end Patterns

end Social

end UncContracts
