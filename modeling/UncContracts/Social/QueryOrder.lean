import UncContracts.Social.Rendering

/-!
# The order of patterns

What a pattern makes of the fields commutes with what others make of them, unless one of the patterns
ends at a node that another goes through, and the own value of the node is shown with its height. The
value and its height then take the place of the node, where the other pattern writes the height of
the node.

## Main definitions

* `EndsAt`, `GoesThrough`: how a pattern meets a node
* `Contract.Leads`: a path leads to a node
* `Contract.Clash`: patterns of which the order matters

## Main results

* `fieldRead_commute`: patterns without a clash commute
* `queryOrder_run`: the order and the repetition of patterns matters exactly if they clash
-/

namespace UncContracts

open Foundation UnorderedMap

namespace JsonView

open Social (EMPTY_KEY)

variable {new view : JsonView}

/-- What joined does not join again. -/
theorem join_join (h : new.join new = new) (view : JsonView) :
    new.join (new.join view) = new.join view := by
  induction view with
  | absent => exact h
  | leaf value => rfl
  | object fields ih => rw [join, join, Function.update_self, ih, Function.update_idem]

/-- A value that is no object joins inside. -/
theorem inner_join_leaf (value : Json) (view : JsonView) : ((leaf value).join view).inner =
    Function.update view.inner EMPTY_KEY ((leaf value).join (view.inner EMPTY_KEY)) := by
  cases view with
  | absent => rfl
  | leaf value' => rw [join, inner, Function.update_self, join, Function.update_idem]
  | object fields => rfl

/-- No value that is no object is above a path. -/
def Clear : JsonView → List String → Prop
  | _, [] => True
  | .absent, _ :: _ => True
  | .leaf _, _ :: _ => False
  | .object fields, key :: path => Clear (fields key) path

namespace Clear

variable {path : List String}

@[simp] theorem absent (path : List String) : JsonView.absent.Clear path := by
  cases path <;> trivial

/-- Nothing moves above the path. -/
theorem inner (h : view.Clear path) : (JsonView.object view.inner).Clear path := by
  cases path with
  | nil => trivial
  | cons key path =>
    cases view with
    | absent => exact absent path
    | leaf value => exact h.elim
    | object fields => exact h

theorem lookup_inner (h : view.Clear path) (hne : path ≠ []) :
    (JsonView.object view.inner).lookup path = view.lookup path := by
  cases path with
  | nil => exact absurd rfl hne
  | cons key path =>
    cases view with
    | absent => exact (@lookup_absent path).trans (@lookup_absent (key :: path)).symm
    | leaf value => exact h.elim
    | object fields => rfl

theorem inner_lookup_inner (h : view.Clear path) :
    ((JsonView.object view.inner).lookup path).inner = (view.lookup path).inner := by
  cases path with
  | nil => rw [lookup_nil, lookup_nil, JsonView.inner]
  | cons key path => rw [h.lookup_inner (List.cons_ne_nil key path)]

end Clear

theorem exists_fields_of_lookup {path : List String} (hne : path ≠ []) (h : view.lookup path ≠ .absent) :
    ∃ fields, view = object fields := by
  cases path with
  | nil => exact absurd rfl hne
  | cons key path =>
    cases view with
    | absent => exact absurd lookup_absent h
    | leaf value => exact absurd lookup_leaf h
    | object fields => exact ⟨fields, rfl⟩

theorem lookup_append (view : JsonView) (path path' : List String) :
    view.lookup (path ++ path') = (view.lookup path).lookup path' := by
  induction path generalizing view with
  | nil => rw [List.nil_append, lookup_nil]
  | cons key path ih =>
    cases view with
    | absent => rw [lookup_absent, lookup_absent, lookup_absent]
    | leaf value => rw [List.cons_append, lookup_leaf, lookup_leaf, lookup_absent]
    | object fields => exact ih (fields key)

theorem lookup_noFields {path : List String} (hne : path ≠ []) :
    (object noFields).lookup path = .absent := by
  cases path with
  | nil => exact absurd rfl hne
  | cons key path => exact lookup_absent

theorem clear_noFields {path : List String} : (object noFields).Clear path := by
  cases path with
  | nil => trivial
  | cons key path => exact Clear.absent path

/-- Above what is there, there are objects. -/
theorem clear_of_lookup {path : List String} (h : view.lookup path ≠ .absent) : view.Clear path := by
  induction path generalizing view with
  | nil => cases view <;> trivial
  | cons key path ih =>
    cases view with
    | absent => exact Clear.absent _
    | leaf value => exact absurd lookup_leaf h
    | object fields => exact ih h

end JsonView

namespace Social

variable {c : Contract} {options : GetOptions} {node child target : Node} {n m : NodeId}
  {key key' k : String} {keys keys' p q path : List String} {nodeValue : NodeValue} {steps : ℕ}
  {view : JsonView}

/-! ## Fields of a node -/

theorem nodeView_of_plain (h : PlainKey k) : options.nodeView node k view = view := by
  unfold GetOptions.nodeView
  rw [if_neg, if_neg]
  · rintro ⟨-, rfl⟩
    cases h
  · rintro ⟨-, rfl⟩
    cases h

theorem nodeView_nodeView (options : GetOptions) (node : Node) (k : String) (view : JsonView) :
    options.nodeView node k (options.nodeView node k view) = options.nodeView node k view := by
  unfold GetOptions.nodeView
  split
  · rfl
  · split <;> rfl

/-- A pattern reads an entry, unless it goes on after `**` or is for another key. -/
theorem fieldRead_of_entry (hplain : PlainKey k) (hentry : node.children.get k = some nodeValue) :
    c.fieldRead options (steps + 1) node (key :: keys) k view =
      if (key = RECURSIVE_STAR → keys = []) ∧ PartReads key k then
        c.entryRead options key keys (c.fieldRead options steps) nodeValue view
      else view := by
  simp only [Contract.fieldRead, hentry, nodeView_of_plain hplain]
  by_cases hstar : key = RECURSIVE_STAR → keys = []
  · rw [if_neg (fun h => h.2 (hstar h.1))]
    exact (if_congr (and_iff_right hstar) rfl rfl).symm
  · have hill : key = RECURSIVE_STAR ∧ keys ≠ [] := by
      simpa only [Classical.not_imp] using hstar
    rw [if_pos hill, if_neg fun h => hstar h.1]

/-- The field of a key without an entry. -/
theorem fieldRead_of_none (hentry : node.children.get k = none) :
    c.fieldRead options (steps + 1) node (key :: keys) k view =
      if key = RECURSIVE_STAR ∧ keys ≠ [] then view else options.nodeView node k view := by
  simp only [Contract.fieldRead, hentry]

/-- The own entry of a node is left, or joins what is there. -/
theorem fieldRead_own (c : Contract) (options : GetOptions) (steps : ℕ) (path : List String)
    (hentry : node.children.get EMPTY_KEY = some nodeValue) (hvalue : ∀ m, nodeValue ≠ .node m) :
    (∀ view, c.fieldRead options steps node path EMPTY_KEY view = view) ∨
      ∀ view, c.fieldRead options steps node path EMPTY_KEY view =
        (options.entryView nodeValue).join view := by
  cases steps with
  | zero => exact .inl fun view => rfl
  | succ steps =>
    cases path with
    | nil => exact .inl fun view => rfl
    | cons key keys =>
      simp only [fieldRead_of_entry plainKey_empty hentry]
      split
      · cases nodeValue with
        | node m => exact absurd rfl (hvalue m)
        | value v | deletedEntry blockHeight =>
          simp only [Contract.entryRead]
          split
          · exact .inr fun view => rfl
          · exact .inl fun view => rfl
      · exact .inl fun view => rfl

theorem entryView_node (options : GetOptions) (m : NodeId) :
    options.entryView (.node m) = .absent := rfl

/-- The own entry of a node joins what is there before a pattern is read, or after. -/
theorem fieldRead_join (c : Contract) (steps : ℕ) (path : List String)
    (hentry : node.children.get EMPTY_KEY = some nodeValue) (view : JsonView) :
    c.fieldRead options steps node path EMPTY_KEY ((options.entryView nodeValue).join view) =
      (options.entryView nodeValue).join (c.fieldRead options steps node path EMPTY_KEY view) := by
  by_cases hvalue : ∃ m, nodeValue = .node m
  · obtain ⟨m, rfl⟩ := hvalue
    rw [entryView_node, JsonView.join_absent, JsonView.join_absent]
  · rcases fieldRead_own c options steps path hentry
      (fun m hm => hvalue ⟨m, hm⟩) with hread | hread
    · rw [hread, hread]
    · rw [hread, hread]

/-- The number of a node stays under its key. -/
theorem fieldRead_number (hplain : ∀ k nodeValue, node.children.get k = some nodeValue → PlainKey k)
    (hid : options.withNodeId = some true) :
    c.fieldRead options steps node path KEY_NODE_ID (.leaf (jsonNumber node.nodeId)) =
      .leaf (jsonNumber node.nodeId) := by
  cases steps with
  | zero => rfl
  | succ steps =>
    cases path with
    | nil => rfl
    | cons key keys =>
      cases hentry : node.children.get KEY_NODE_ID with
      | some nodeValue => cases hplain _ _ hentry
      | none =>
        rw [fieldRead_of_none hentry]
        split
        · rfl
        · exact if_pos ⟨hid, rfl⟩

/-! ## Patterns that commute -/

/-- A pattern ends at a node at a path. -/
def EndsAt (keys path : List String) : Prop :=
  List.Forall₂ (fun key k => key ≠ RECURSIVE_STAR ∧ PartMatches key k) keys path

/-- A pattern goes through a node at a path. -/
inductive GoesThrough : List String → List String → Prop
  | here {keys : List String} (h : keys ≠ []) : GoesThrough keys []
  | all {path : List String} : GoesThrough [RECURSIVE_STAR] path
  | step {key k : String} {keys path : List String} (hkey : key ≠ RECURSIVE_STAR)
    (hpart : PartMatches key k) (h : GoesThrough keys path) : GoesThrough (key :: keys) (k :: path)

/-- A path leads from a node to a node. -/
inductive Contract.Leads (c : Contract) : Node → List String → Node → Prop
  | refl (node : Node) : c.Leads node [] node
  | step {node child target : Node} {k : String} {m : NodeId} {path : List String}
    (hentry : node.children.get k = some (.node m)) (hchild : c.internalUnwrapNode m = .ok child)
    (h : c.Leads child path target) : c.Leads node (k :: path) target

/-- A node has an own value that is shown. -/
def GetOptions.ShowsOwn (options : GetOptions) (node : Node) : Prop :=
  match node.children.get EMPTY_KEY with
  | some (.value _) => True
  | some (.deletedEntry _) => options.returnDeleted = some true
  | _ => False

/-- A pattern ends at a node whose own value is shown with its height and not with its number, and
another one goes through the node. -/
def Contract.Clash (c : Contract) (options : GetOptions) (node : Node) (p q : List String) : Prop :=
  options.withBlockHeight = some true ∧ options.withNodeId ≠ some true ∧
    ∃ path target, c.Leads node path target ∧ options.ShowsOwn target ∧ EndsAt p path ∧
      GoesThrough q path

theorem showsOwn_iff : options.ShowsOwn node ↔ ∃ nodeValue,
    node.children.get EMPTY_KEY = some nodeValue ∧ options.entryView nodeValue ≠ .absent := by
  have hvalue : ∀ value blockHeight, options.valueView value blockHeight ≠ .absent := by
    intro value blockHeight
    unfold GetOptions.valueView
    split <;> simp
  unfold GetOptions.ShowsOwn
  cases node.children.get EMPTY_KEY with
  | none => simp
  | some nodeValue =>
    cases nodeValue with
    | node m => simp [GetOptions.entryView]
    | value v => simp [GetOptions.entryView, hvalue]
    | deletedEntry blockHeight =>
      simp only [GetOptions.entryView, Option.some.injEq, exists_eq_left']
      by_cases hdeleted : options.returnDeleted = some true
      · simp [hdeleted, hvalue]
      · simp [hdeleted]

/-- Without a height, an entry that is shown is no object. -/
theorem entryView_eq_leaf (hblock : options.withBlockHeight ≠ some true)
    (hshown : options.entryView nodeValue ≠ .absent) :
    ∃ value, options.entryView nodeValue = .leaf value := by
  cases nodeValue with
  | node m => exact absurd rfl hshown
  | value v => exact ⟨_, if_neg hblock⟩
  | deletedEntry blockHeight =>
    rw [GetOptions.entryView] at hshown ⊢
    split at hshown
    · next hdeleted => exact ⟨.null, by rw [if_pos hdeleted, GetOptions.valueView, if_neg hblock]⟩
    · exact absurd rfl hshown

/-- The own entry of a node joins before a pattern goes through the node, or after, if its height does
not take the place of the node. -/
theorem ownRead_comm (hplain : ∀ k nodeValue, child.children.get k = some nodeValue → PlainKey k)
    (hclash : options.withBlockHeight = some true → options.withNodeId ≠ some true →
      ¬ options.ShowsOwn child) (view : JsonView) :
    .object (fun k => c.fieldRead options steps child path k ((options.ownRead child view).inner k)) =
      options.ownRead child (.object fun k => c.fieldRead options steps child path k (view.inner k)) := by
  unfold GetOptions.ownRead
  cases hentry : child.children.get EMPTY_KEY with
  | none => rfl
  | some nodeValue =>
    have hjoin : ∀ view, c.fieldRead options steps child path EMPTY_KEY
          ((options.entryView nodeValue).join view) = (options.entryView nodeValue).join
            (c.fieldRead options steps child path EMPTY_KEY view) := fieldRead_join c steps path hentry
    by_cases hid : options.withNodeId = some true
    · simp only [if_pos hid, JsonView.join, JsonView.inner]
      refine congrArg JsonView.object (funext fun k => ?_)
      have hown : EMPTY_KEY ≠ KEY_NODE_ID := by decide
      rcases eq_or_ne k EMPTY_KEY with rfl | hne
      · simp only [Function.update_self, Function.update_of_ne hown, hjoin]
      · rw [Function.update_of_ne hne, Function.update_of_ne hne]
        rcases eq_or_ne k KEY_NODE_ID with rfl | hne'
        · rw [Function.update_self, Function.update_self, fieldRead_number hplain hid]
        · rw [Function.update_of_ne hne', Function.update_of_ne hne']
    · simp only [if_neg hid]
      by_cases hshown : options.entryView nodeValue = .absent
      · rw [hshown, JsonView.join_absent, JsonView.join_absent]
      · have hblock : options.withBlockHeight ≠ some true := fun hblock =>
          hclash hblock hid (showsOwn_iff.mpr ⟨nodeValue, hentry, hshown⟩)
        obtain ⟨value, hleaf⟩ := entryView_eq_leaf hblock hshown
        rw [hleaf] at hjoin ⊢
        rw [JsonView.inner_join_leaf, JsonView.join]
        refine congrArg JsonView.object (funext fun k => ?_)
        rcases eq_or_ne k EMPTY_KEY with rfl | hne
        · rw [Function.update_self, Function.update_self, hjoin]
        · rw [Function.update_of_ne hne, Function.update_of_ne hne]

/-- The own entry of a node does not join twice. -/
theorem ownRead_ownRead (options : GetOptions) (child : Node) (view : JsonView) :
    options.ownRead child (options.ownRead child view) = options.ownRead child view := by
  unfold GetOptions.ownRead
  cases child.children.get EMPTY_KEY with
  | none => rfl
  | some nodeValue =>
    have hjoin := JsonView.join_join (join_entryView options nodeValue)
    by_cases hid : options.withNodeId = some true
    · simp only [if_pos hid, JsonView.join, JsonView.inner]
      refine congrArg JsonView.object (funext fun k => ?_)
      have hown : EMPTY_KEY ≠ KEY_NODE_ID := by decide
      rcases eq_or_ne k EMPTY_KEY with rfl | hne
      · simp only [Function.update_self, Function.update_of_ne hown, hjoin]
      · simp only [Function.update_of_ne hne]
        rcases eq_or_ne k KEY_NODE_ID with rfl | hne'
        · rw [Function.update_self, Function.update_self]
        · rw [Function.update_of_ne hne', Function.update_of_ne hne]
    · simp only [if_neg hid]
      exact hjoin view

section Entries

variable {fieldRead : Node → List String → String → JsonView → JsonView}

theorem entryRead_below (hchild : c.internalUnwrapNode m = .ok child) (h : residual key keys = some path) :
    c.entryRead options key keys fieldRead (.node m) view =
      .object fun k => fieldRead child path k (view.inner k) := by
  simp only [Contract.entryRead, hchild, h]

theorem entryRead_own (hchild : c.internalUnwrapNode m = .ok child) (h : residual key keys = none) :
    c.entryRead options key keys fieldRead (.node m) view = options.ownRead child view := by
  simp only [Contract.entryRead, hchild, h]

/-- Entries are read in any order, if what is below them is. -/
theorem entryRead_comm (hbelow : ∀ m child, nodeValue = .node m → c.internalUnwrapNode m = .ok child →
      (∀ p q, residual key keys = some p → residual key' keys' = some q → ∀ k view,
        fieldRead child p k (fieldRead child q k view) = fieldRead child q k (fieldRead child p k view)) ∧
      (∀ p, residual key keys = some p → residual key' keys' = none → ∀ view,
        .object (fun k => fieldRead child p k ((options.ownRead child view).inner k)) =
          options.ownRead child (.object fun k => fieldRead child p k (view.inner k))) ∧
      ∀ q, residual key keys = none → residual key' keys' = some q → ∀ view,
        .object (fun k => fieldRead child q k ((options.ownRead child view).inner k)) =
          options.ownRead child (.object fun k => fieldRead child q k (view.inner k)))
    (view : JsonView) :
    c.entryRead options key keys fieldRead nodeValue
        (c.entryRead options key' keys' fieldRead nodeValue view) =
      c.entryRead options key' keys' fieldRead nodeValue
        (c.entryRead options key keys fieldRead nodeValue view) := by
  cases nodeValue with
  | value v | deletedEntry blockHeight =>
    simp only [Contract.entryRead]
    split
    · split <;> rfl
    · rfl
  | node m =>
    cases hchild : c.internalUnwrapNode m with
    | error msg => simp only [Contract.entryRead, hchild]
    | ok child =>
      obtain ⟨hboth, hown, hown'⟩ := hbelow m child rfl hchild
      cases hp : residual key keys with
      | none =>
        simp only [entryRead_own hchild hp]
        cases hq : residual key' keys' with
        | none => simp only [entryRead_own hchild hq]
        | some q =>
          simp only [entryRead_below hchild hq]
          exact (hown' q hp hq view).symm
      | some p =>
        simp only [entryRead_below hchild hp]
        cases hq : residual key' keys' with
        | none =>
          simp only [entryRead_own hchild hq]
          exact hown p hp hq view
        | some q =>
          simp only [entryRead_below hchild hq]
          exact congrArg JsonView.object (funext fun k => hboth p q hp hq k _)

/-- An entry need not be read twice, if what is below it need not be. -/
theorem entryRead_entryRead (hbelow : ∀ m child p, nodeValue = .node m →
      c.internalUnwrapNode m = .ok child → residual key keys = some p → ∀ k view,
        fieldRead child p k (fieldRead child p k view) = fieldRead child p k view) (view : JsonView) :
    c.entryRead options key keys fieldRead nodeValue
        (c.entryRead options key keys fieldRead nodeValue view) =
      c.entryRead options key keys fieldRead nodeValue view := by
  cases nodeValue with
  | value v | deletedEntry blockHeight =>
    simp only [Contract.entryRead]
    split
    · exact JsonView.join_join (join_entryView options _) view
    · rfl
  | node m =>
    cases hchild : c.internalUnwrapNode m with
    | error msg => simp only [Contract.entryRead, hchild]
    | ok child =>
      cases hp : residual key keys with
      | none =>
        simp only [entryRead_own hchild hp]
        exact ownRead_ownRead options child view
      | some p =>
        simp only [entryRead_below hchild hp]
        exact congrArg JsonView.object (funext fun k => hbelow m child p rfl hchild hp k _)

end Entries

/-! ### How patterns go on -/

/-- A part of a pattern that is well formed goes on below a key, or ends there. -/
structure Meets (key : String) (keys : List String) (k : String) : Prop where
  suffix : key = RECURSIVE_STAR → keys = []
  reads : PartReads key k

namespace Meets

theorem partMatches (h : Meets key keys k) (hkey : key ≠ RECURSIVE_STAR) : PartMatches key k := by
  rcases h.reads with hstar | hstar | heq
  · exact .inl hstar
  · exact absurd hstar hkey
  · exact .inr heq

/-- What is left of a pattern is the rest of it, or all of it. -/
theorem residual_cases (h : Meets key keys k) (hres : residual key keys = some p) :
    key = RECURSIVE_STAR ∧ keys = [] ∧ p = [RECURSIVE_STAR] ∨
      key ≠ RECURSIVE_STAR ∧ keys ≠ [] ∧ p = keys := by
  unfold residual at hres
  split at hres
  · next hkeys =>
    split at hres
    · next hkey =>
      cases hres
      exact .inl ⟨hkey, hkeys, rfl⟩
    · cases hres
  · next hkeys =>
    cases hres
    exact .inr ⟨fun hkey => hkeys (h.suffix hkey), hkeys, rfl⟩

/-- A pattern ends below a key where what is left of it ends. -/
theorem endsAt_cons (h : Meets key keys k) (hres : residual key keys = some p) (hends : EndsAt p path) :
    EndsAt (key :: keys) (k :: path) := by
  rcases h.residual_cases hres with ⟨-, -, rfl⟩ | ⟨hkey, -, rfl⟩
  · cases hends with
    | cons hpart hrest => exact absurd rfl hpart.1
  · exact .cons ⟨hkey, h.partMatches hkey⟩ hends

theorem goesThrough_cons (h : Meets key keys k) (hres : residual key keys = some p)
    (hthrough : GoesThrough p path) : GoesThrough (key :: keys) (k :: path) := by
  rcases h.residual_cases hres with ⟨rfl, rfl, -⟩ | ⟨hkey, -, rfl⟩
  · exact .all
  · exact .step hkey (h.partMatches hkey) hthrough

/-- A pattern ends at a key if nothing is left of it. -/
theorem endsAt_singleton (h : Meets key keys k) (hres : residual key keys = none) :
    EndsAt (key :: keys) [k] := by
  unfold residual at hres
  split at hres
  · next hkeys =>
    subst hkeys
    split at hres
    · cases hres
    · next hkey => exact .cons ⟨hkey, h.partMatches hkey⟩ .nil
  · cases hres

theorem goesThrough_singleton (h : Meets key keys k) (hres : residual key keys = some p) :
    GoesThrough (key :: keys) [k] := by
  rcases h.residual_cases hres with ⟨rfl, rfl, -⟩ | ⟨hkey, hkeys, -⟩
  · exact .all
  · exact .step hkey (h.partMatches hkey) (.here hkeys)

end Meets

/-- Patterns clash where what is left of them clashes. -/
theorem Contract.Clash.cons (hentry : node.children.get k = some (.node m))
    (hchild : c.internalUnwrapNode m = .ok child) (hp : Meets key keys k)
    (hresp : residual key keys = some p) (hq : Meets key' keys' k) (hresq : residual key' keys' = some q)
    (h : c.Clash options child p q) : c.Clash options node (key :: keys) (key' :: keys') := by
  obtain ⟨hblock, hid, path, target, hleads, hshows, hends, hthrough⟩ := h
  exact ⟨hblock, hid, k :: path, target, .step hentry hchild hleads, hshows, hp.endsAt_cons hresp hends,
    hq.goesThrough_cons hresq hthrough⟩

/-- A pattern that ends at a key clashes with one that goes on below it. -/
theorem Contract.Clash.here (hentry : node.children.get k = some (.node m))
    (hchild : c.internalUnwrapNode m = .ok child) (hp : Meets key keys k)
    (hresp : residual key keys = none) (hq : Meets key' keys' k) (hresq : residual key' keys' = some q)
    (hblock : options.withBlockHeight = some true) (hid : options.withNodeId ≠ some true)
    (hshows : options.ShowsOwn child) : c.Clash options node (key :: keys) (key' :: keys') :=
  ⟨hblock, hid, [k], child, .step hentry hchild (.refl child), hshows, hp.endsAt_singleton hresp,
    hq.goesThrough_singleton hresq⟩

/-- **Patterns commute** on each field, if they do not clash. -/
theorem fieldRead_comm (hsound : c.Sound) (hnode : c.Holds n node) (hclash : ¬ c.Clash options node p q)
    (hclash' : ¬ c.Clash options node q p) (k : String) (view : JsonView) :
    c.fieldRead options steps node p k (c.fieldRead options steps node q k view) =
      c.fieldRead options steps node q k (c.fieldRead options steps node p k view) := by
  induction steps generalizing n node p q k view with
  | zero => rfl
  | succ steps ih =>
    cases p with
    | nil => rfl
    | cons key keys =>
    cases q with
    | nil => rfl
    | cons key' keys' =>
    cases hentry : node.children.get k with
    | none =>
      simp only [fieldRead_of_none hentry]
      split
      · rfl
      · split <;> rfl
    | some nodeValue =>
      have hplain : PlainKey k := hsound.keys n k nodeValue ((hnode k).trans hentry)
      simp only [fieldRead_of_entry hplain hentry]
      -- Only if both patterns read the entry, their order could matter.
      by_cases hp : (key = RECURSIVE_STAR → keys = []) ∧ PartReads key k
      · by_cases hq : (key' = RECURSIVE_STAR → keys' = []) ∧ PartReads key' k
        · simp only [if_pos hp, if_pos hq]
          have hp : Meets key keys k := ⟨hp.1, hp.2⟩
          have hq : Meets key' keys' k := ⟨hq.1, hq.2⟩
          refine entryRead_comm (fun m child hm hchild => ?_) view
          subst hm
          obtain ⟨child', hchild', hholds, -, -⟩ := hsound.exists_child hnode hentry
          cases hchild.symm.trans hchild'
          have hkeys : ∀ k nodeValue, child.children.get k = some nodeValue → PlainKey k :=
            fun k nodeValue hget => hsound.keys m k nodeValue ((hholds k).trans hget)
          refine ⟨?_, ?_, ?_⟩
          · intro p q hresp hresq k view
            exact ih hholds (fun h => hclash (h.cons hentry hchild hp hresp hq hresq))
              (fun h => hclash' (h.cons hentry hchild hq hresq hp hresp)) k view
          · intro p hresp hresq view
            exact ownRead_comm hkeys (fun hblock hid hshows => hclash'
              (.here hentry hchild hq hresq hp hresp hblock hid hshows)) view
          · intro q hresp hresq view
            exact ownRead_comm hkeys (fun hblock hid hshows => hclash
              (.here hentry hchild hp hresp hq hresq hblock hid hshows)) view
        · simp only [if_neg hq]
      · simp only [if_neg hp]

/-- **A pattern need not be read twice.** -/
theorem fieldRead_fieldRead (hsound : c.Sound) (hnode : c.Holds n node) (k : String) (view : JsonView) :
    c.fieldRead options steps node p k (c.fieldRead options steps node p k view) =
      c.fieldRead options steps node p k view := by
  induction steps generalizing n node p k view with
  | zero => rfl
  | succ steps ih =>
    cases p with
    | nil => rfl
    | cons key keys =>
    cases hentry : node.children.get k with
    | none =>
      simp only [fieldRead_of_none hentry]
      split
      · rfl
      · exact nodeView_nodeView options node k view
    | some nodeValue =>
      have hplain : PlainKey k := hsound.keys n k nodeValue ((hnode k).trans hentry)
      simp only [fieldRead_of_entry hplain hentry]
      split
      · refine entryRead_entryRead (fun m child p hm hchild _ k view => ?_) view
        subst hm
        obtain ⟨child', hchild', hholds, -, -⟩ := hsound.exists_child hnode hentry
        cases hchild.symm.trans hchild'
        exact ih hholds k view
      · rfl

/-! ## Patterns that clash -/

/-- A pattern ends at a node, and what is at the node takes the own value. -/
theorem lookup_endsAt (hsound : c.Sound) (hnode : c.Holds n node) (hn : n < c.nodeCount)
    (hsteps : c.nodeCount ≤ steps + n) (hleads : c.Leads node path target) (hends : EndsAt p path)
    (hne : path ≠ []) {fields : String → JsonView} (hclear : (JsonView.object fields).Clear path) :
    (JsonView.object fun k => c.fieldRead options steps node p k (fields k)).lookup path =
      options.ownRead target ((JsonView.object fields).lookup path) := by
  induction hleads generalizing steps n p fields with
  | refl node => exact absurd rfl hne
  | @step node child target k m path hentry hchild hleads ih =>
    obtain ⟨child', hchild', hholds, hlt, hcount⟩ := hsound.exists_child hnode hentry
    cases hchild.symm.trans hchild'
    have hplain : PlainKey k := hsound.keys n k _ ((hnode k).trans hentry)
    cases steps with
    | zero => exact absurd hn (Nat.not_lt.mpr (by simpa using hsteps))
    | succ steps =>
    cases hends with
    | @cons key _ keys _ hpart hends =>
    have hreads : (key = RECURSIVE_STAR → keys = []) ∧ PartReads key k :=
      ⟨fun hkey => absurd hkey hpart.1, hpart.2.imp_right .inr⟩
    rw [JsonView.lookup_object, JsonView.lookup_object, fieldRead_of_entry hplain hentry, if_pos hreads]
    cases hends with
    | nil =>
      have hres : residual key [] = none := by
        rw [residual, if_pos rfl, if_neg hpart.1]
      cases hleads
      rw [entryRead_own hchild hres, JsonView.lookup_nil, JsonView.lookup_nil]
    | @cons key' k' keys path hpart' hends =>
      have hres : residual key (key' :: keys) = some (key' :: keys) := if_neg (List.cons_ne_nil _ _)
      rw [entryRead_below hchild hres]
      have hclear' : (fields k).Clear (k' :: path) := hclear
      rw [ih hholds hcount (steps_of_lt hsteps hlt) (.cons hpart' hends) (List.cons_ne_nil _ _)
        hclear'.inner, hclear'.lookup_inner (List.cons_ne_nil _ _)]

/-- A pattern goes through a node, and reads below it. -/
theorem lookup_goesThrough (options : GetOptions) (hsound : c.Sound) (hnode : c.Holds n node)
    (hn : n < c.nodeCount) (hsteps : c.nodeCount ≤ steps + n) (hleads : c.Leads node path target)
    (hthrough : GoesThrough q path)
    {fields : String → JsonView} (hclear : (JsonView.object fields).Clear path) :
    ∃ steps' q', (JsonView.object fun k => c.fieldRead options steps node q k (fields k)).lookup path =
      .object fun k => c.fieldRead options steps' target q' k
        (((JsonView.object fields).lookup path).inner k) := by
  induction hleads generalizing steps n q fields with
  | refl node => exact ⟨steps, q, by simp only [JsonView.lookup_nil, JsonView.inner]⟩
  | @step node child target k m path hentry hchild hleads ih =>
    obtain ⟨child', hchild', hholds, hlt, hcount⟩ := hsound.exists_child hnode hentry
    cases hchild.symm.trans hchild'
    have hplain : PlainKey k := hsound.keys n k _ ((hnode k).trans hentry)
    cases steps with
    | zero => exact absurd hn (Nat.not_lt.mpr (by simpa using hsteps))
    | succ steps =>
    obtain ⟨key, keys, q', rfl, hreads, hres, hthrough'⟩ : ∃ key keys q', q = key :: keys ∧
        ((key = RECURSIVE_STAR → keys = []) ∧ PartReads key k) ∧ residual key keys = some q' ∧
          GoesThrough q' path := by
      cases hthrough with
      | all => exact ⟨_, _, _, rfl, ⟨fun _ => rfl, .inr (.inl rfl)⟩, rfl, .all⟩
      | @step key _ keys _ hkey hpart h =>
        have hkeys : keys ≠ [] := by
          rintro rfl
          cases h with
          | here hne => exact hne rfl
        exact ⟨key, keys, keys, rfl, ⟨fun heq => absurd heq hkey, hpart.imp_right .inr⟩, if_neg hkeys, h⟩
    have hclear' : (fields k).Clear path := hclear
    rw [JsonView.lookup_object, JsonView.lookup_object, fieldRead_of_entry hplain hentry, if_pos hreads,
      entryRead_below hchild hres]
    obtain ⟨steps', q'', hlookup⟩ :=
      ih hholds hcount (steps_of_lt hsteps hlt) hthrough' hclear'.inner
    exact ⟨steps', q'', by rw [hlookup, hclear'.inner_lookup_inner]⟩

/-- The own entry of a node above a path leaves what is at the path. -/
theorem lookup_ownRead (hid : options.withNodeId ≠ some true) (hleads : c.Leads child path target)
    (hown : target.children.get EMPTY_KEY = some nodeValue)
    (hjoin : (options.entryView nodeValue).join view = view) {fields : String → JsonView}
    (h : (JsonView.object fields).lookup (path ++ [EMPTY_KEY]) = view) :
    (options.ownRead child (.object fields)).lookup (path ++ [EMPTY_KEY]) = view := by
  unfold GetOptions.ownRead
  cases hentry : child.children.get EMPTY_KEY with
  | none => exact h
  | some nodeValue' =>
    simp only [if_neg hid, JsonView.join]
    cases hleads with
    | refl =>
      cases hown.symm.trans hentry
      rw [List.nil_append, JsonView.lookup_object, JsonView.lookup_nil] at h ⊢
      rw [Function.update_self, h, hjoin]
    | @step _ _ _ k m path hentry' hchild hleads =>
      rw [List.cons_append, JsonView.lookup_object] at h ⊢
      rcases eq_or_ne k EMPTY_KEY with rfl | hne
      · cases hentry.symm.trans hentry'
        rw [Function.update_self, entryView_node, JsonView.join_absent, h]
      · rw [Function.update_of_ne hne, h]

/-- **What took the place of an own value stays**, whatever is read. -/
theorem lookup_fieldRead (hsound : c.Sound) (hnode : c.Holds n node)
    (hid : options.withNodeId ≠ some true) (hleads : c.Leads node path target)
    (hown : target.children.get EMPTY_KEY = some nodeValue) (hvalue : ∀ m, nodeValue ≠ .node m)
    (hjoin : (options.entryView nodeValue).join view = view) (hview : view ≠ .absent)
    {fields : String → JsonView} (h : (JsonView.object fields).lookup (path ++ [EMPTY_KEY]) = view) :
    (JsonView.object fun k => c.fieldRead options steps node p k (fields k)).lookup
      (path ++ [EMPTY_KEY]) = view := by
  induction hleads generalizing steps n p fields with
  | refl node =>
    rw [List.nil_append, JsonView.lookup_object, JsonView.lookup_nil] at h ⊢
    rcases fieldRead_own c options steps p hown hvalue with hread | hread
    · rw [hread, h]
    · rw [hread, h, hjoin]
  | @step node child target k m path hentry hchild hleads ih =>
    obtain ⟨child', hchild', hholds, -, -⟩ := hsound.exists_child hnode hentry
    cases hchild.symm.trans hchild'
    have hplain : PlainKey k := hsound.keys n k _ ((hnode k).trans hentry)
    rw [List.cons_append, JsonView.lookup_object] at h ⊢
    cases steps with
    | zero => exact h
    | succ steps =>
    cases p with
    | nil => exact h
    | cons key keys =>
    rw [fieldRead_of_entry hplain hentry]
    split
    · have hne : path ++ [EMPTY_KEY] ≠ [] := by simp
      have hclear : (fields k).Clear (path ++ [EMPTY_KEY]) :=
        JsonView.clear_of_lookup (h.symm ▸ hview)
      cases hres : residual key keys with
      | none =>
        obtain ⟨inner, hinner⟩ := JsonView.exists_fields_of_lookup hne (h.symm ▸ hview)
        rw [entryRead_own hchild hres, hinner]
        rw [hinner] at h
        exact lookup_ownRead hid hleads hown hjoin h
      | some p =>
        rw [entryRead_below hchild hres]
        refine ih hholds hown ?_
        rw [hclear.lookup_inner hne, h]
    · exact h

theorem Contract.Leads.plain (hsound : c.Sound) (hnode : c.Holds n node) (h : c.Leads node path target) :
    ∀ k ∈ path, PlainKey k := by
  induction h generalizing n with
  | refl node =>
    intro k hk
    cases hk
  | @step node child target k m path hentry hchild hleads ih =>
    obtain ⟨child', hchild', hholds, -, -⟩ := hsound.exists_child hnode hentry
    cases hchild.symm.trans hchild'
    rw [List.forall_mem_cons]
    exact ⟨hsound.keys n k _ ((hnode k).trans hentry), ih hholds⟩

/-- Without its number, the own entry of a node joins alone. -/
theorem ownRead_of_entry (hid : options.withNodeId ≠ some true)
    (hown : target.children.get EMPTY_KEY = some nodeValue) (view : JsonView) :
    options.ownRead target view = (options.entryView nodeValue).join view := by
  unfold GetOptions.ownRead
  simp only [hown, if_neg hid]

/-- Patterns of a list clash. -/
def Contract.Clashes (c : Contract) (options : GetOptions) (patterns : List String) : Prop :=
  ∃ pattern ∈ patterns, ∃ pattern' ∈ patterns, ∃ p q, patternPath pattern = some p ∧
    patternPath pattern' = some q ∧ c.Clash options c.rootNode p q

/-- What took the place of an own value stays to the end. -/
theorem lookup_patternsRead (hsound : c.Sound) (hid : options.withNodeId ≠ some true)
    (hleads : c.Leads c.rootNode path target) (hown : target.children.get EMPTY_KEY = some nodeValue)
    (hvalue : ∀ m, nodeValue ≠ .node m) (hjoin : (options.entryView nodeValue).join view = view)
    (hview : view ≠ .absent) (patterns : List String) {fields : String → JsonView}
    (h : (JsonView.object fields).lookup (path ++ [EMPTY_KEY]) = view) :
    (JsonView.object (patterns.foldl (c.patternRead options) fields)).lookup (path ++ [EMPTY_KEY]) =
      view := by
  induction patterns generalizing fields with
  | nil => exact h
  | cons pattern patterns ih =>
    refine ih ?_
    unfold Contract.patternRead
    cases patternPath pattern with
    | none => exact h
    | some p =>
      exact lookup_fieldRead hsound c.holds_rootNode hid hleads hown hvalue hjoin hview h

/-- With its height, an entry that is shown is an object with a value under the empty key. -/
theorem entryView_eq_object (hblock : options.withBlockHeight = some true)
    (hshown : options.entryView nodeValue ≠ .absent) : ∃ fields value,
    options.entryView nodeValue = .object fields ∧ fields EMPTY_KEY = .leaf value := by
  cases nodeValue with
  | node m => exact absurd rfl hshown
  | value v => exact ⟨_, _, if_pos hblock, Function.update_self ..⟩
  | deletedEntry blockHeight =>
    rw [GetOptions.entryView] at hshown ⊢
    split at hshown
    · next hdeleted =>
      rw [if_pos hdeleted, GetOptions.valueView]
      exact ⟨_, _, if_pos hblock, Function.update_self ..⟩
    · exact absurd rfl hshown

/-- **Patterns that clash** show a value or an object at one place, as one or the other comes first. -/
theorem lookup_of_clash (hsound : c.Sound) {pattern pattern' : String}
    (hp : patternPath pattern = some p) (hq : patternPath pattern' = some q)
    (hclash : c.Clash options c.rootNode p q) (patterns : List String) :
    ∃ path, path ≠ [] ∧ (∀ k ∈ path, PlainKey k) ∧
      (∃ value, (JsonView.object (c.patternsRead options (pattern :: pattern' :: patterns))).lookup path =
        .leaf value) ∧
      ∃ fields, (JsonView.object (c.patternsRead options (pattern' :: pattern :: patterns))).lookup path =
        .object fields := by
  obtain ⟨hblock, hid, path, target, hleads, hshows, hends, hthrough⟩ := hclash
  obtain ⟨nodeValue, hown, hshown⟩ := showsOwn_iff.mp hshows
  obtain ⟨fields, value, hobject, hleaf⟩ := entryView_eq_object hblock hshown
  have hvalue : ∀ m, nodeValue ≠ .node m := by
    rintro m rfl
    exact hshown rfl
  have hne : path ≠ [] := by
    rintro rfl
    cases hends
    exact patternPath_ne_nil hp rfl
  have hjoin : (options.entryView nodeValue).join (.object fields) = .object fields := by
    rw [← hobject]
    exact join_entryView options nodeValue
  have hempty : (JsonView.object JsonView.noFields).lookup path = .absent := JsonView.lookup_noFields hne
  have hreadOwn := ownRead_of_entry hid hown
  have hends : ∀ {fields : String → JsonView}, (JsonView.object fields).Clear path →
      (JsonView.object (c.patternRead options fields pattern)).lookup path =
        (options.entryView nodeValue).join ((JsonView.object fields).lookup path) := by
    intro fields hclear
    rw [patternRead_of_some hp, ← hreadOwn]
    exact lookup_endsAt hsound c.holds_rootNode hsound.count_pos le_rfl hleads hends hne hclear
  -- Both orders differ at the empty key of the node.
  refine ⟨path ++ [EMPTY_KEY], by simp, ?_, ⟨value, ?_⟩, fields, ?_⟩
  · intro k hk
    rcases List.mem_append.mp hk with hk | hk
    · exact hleads.plain hsound c.holds_rootNode k hk
    · rw [List.mem_singleton.mp hk]
      exact plainKey_empty
  · refine lookup_patternsRead hsound hid hleads hown hvalue rfl (by simp) (pattern' :: patterns) ?_
    rw [JsonView.lookup_append, hends JsonView.clear_noFields, hempty, JsonView.join, hobject,
      JsonView.lookup_object, JsonView.lookup_nil, hleaf]
  · refine lookup_patternsRead hsound hid hleads hown hvalue hjoin (by simp) patterns ?_
    obtain ⟨steps, q', hnodeView⟩ := lookup_goesThrough options hsound c.holds_rootNode
      hsound.count_pos le_rfl hleads hthrough JsonView.clear_noFields
    rw [← patternRead_of_some hq, hempty] at hnodeView
    rw [JsonView.lookup_append, hends (JsonView.clear_of_lookup (by simp [hnodeView])), hnodeView,
      JsonView.join, JsonView.lookup_object, JsonView.lookup_nil, Function.update_self,
      ← fieldRead_join c steps q' hown]
    show c.fieldRead options steps target q' EMPTY_KEY ((options.entryView nodeValue).join .absent) = _
    rw [JsonView.join]
    rcases fieldRead_own c options steps q' hown hvalue with hread | hread
    · rw [hread, hobject]
    · rw [hread, join_entryView, hobject]

/-! ## Every run -/

section Runs

variable {patterns patterns' : List String} {getOptions : Option GetOptions}

theorem patternRead_comm (hsound : c.Sound) (hclash : ¬ c.Clashes options patterns)
    {pattern pattern' : String} (hmem : pattern ∈ patterns) (hmem' : pattern' ∈ patterns)
    (fields : String → JsonView) :
    c.patternRead options (c.patternRead options fields pattern) pattern' =
      c.patternRead options (c.patternRead options fields pattern') pattern := by
  cases hp : patternPath pattern with
  | none => simp only [Contract.patternRead, hp]
  | some p =>
    cases hq : patternPath pattern' with
    | none => simp only [Contract.patternRead, hq]
    | some q =>
      rw [patternRead_of_some hp, patternRead_of_some hq, patternRead_of_some hp,
        patternRead_of_some hq]
      refine funext fun k => fieldRead_comm hsound c.holds_rootNode ?_ ?_ k (fields k)
      · exact fun h => hclash ⟨pattern', hmem', pattern, hmem, q, p, hq, hp, h⟩
      · exact fun h => hclash ⟨pattern, hmem, pattern', hmem', p, q, hp, hq, h⟩

theorem patternRead_patternRead (hsound : c.Sound) (pattern : String) (fields : String → JsonView) :
    c.patternRead options (c.patternRead options fields pattern) pattern =
      c.patternRead options fields pattern := by
  cases hp : patternPath pattern with
  | none => simp only [Contract.patternRead, hp]
  | some p =>
    rw [patternRead_of_some hp, patternRead_of_some hp]
    exact funext fun k => fieldRead_fieldRead hsound c.holds_rootNode k (fields k)

/-- Patterns that do not clash make the same of the fields, in any order. -/
theorem patternsRead_eq_of_mem_iff (hsound : c.Sound) (hclash : ¬ c.Clashes options patterns)
    (hsame : ∀ pattern, pattern ∈ patterns' ↔ pattern ∈ patterns) :
    c.patternsRead options patterns' = c.patternsRead options patterns :=
  foldl_eq_of_mem_iff (fun _ hp _ hq fields => patternRead_comm hsound hclash hp hq fields)
    (fun pattern _ fields => patternRead_patternRead hsound pattern fields) hsame _

/-- A read that fails has a pattern that cannot be read. -/
theorem exists_fails_of_get {msg : String} (h : c.get patterns getOptions = .error msg) :
    ∃ pattern ∈ patterns, Fails fun res => c.getKey (getOptions.getD {}) res pattern := by
  by_contra hnone
  have hdraws : ∀ pattern ∈ patterns, Draws
      (fun res => c.getKey (getOptions.getD {}) res pattern) fun fields =>
        c.patternRead (getOptions.getD {}) fields pattern := by
    intro pattern hpattern
    refine (getKey_renders c (getOptions.getD {}) pattern).resolve_left fun hfail => ?_
    exact hnone ⟨pattern, hpattern, hfail⟩
  obtain ⟨res, hget, -⟩ := get_of_draws hdraws
  cases h.symm.trans hget

/-- What two reads return is not the same, if one shows a value where the other shows an object. -/
theorem not_equal_of_clash (hsound : c.Sound) {pattern pattern' : String}
    (hp : patternPath pattern = some p) (hq : patternPath pattern' = some q)
    (hclash : c.Clash options c.rootNode p q) (patterns : List String) :
    JsonView.object (cleanedFields (c.patternsRead options (pattern :: pattern' :: patterns))) ≠
      .object (cleanedFields (c.patternsRead options (pattern' :: pattern :: patterns))) := by
  obtain ⟨path, hne, hplain, ⟨value, hvalue⟩, fields, hobject⟩ :=
    lookup_of_clash hsound hp hq hclash patterns
  cases path with
  | nil => exact absurd rfl hne
  | cons key path =>
    rw [List.forall_mem_cons] at hplain
    intro heq
    have hlookup := congrArg (fun view => view.lookup (key :: path)) heq
    simp only [JsonView.lookup_object, cleanedFields_of_plain hplain.1, lookup_cleanedView hplain.2]
      at hlookup
    rw [JsonView.lookup_object] at hvalue hobject
    rw [hvalue, hobject] at hlookup
    rw [cleanedView, cleanedView] at hlookup
    split at hlookup <;> cases hlookup

end Runs

/-- **The order of patterns.** In every contract that calls lead to, a read that fails does so with its
patterns in any order. What a read returns does not depend on the order of its patterns, or on how
often they are repeated, exactly if no two of them clash. -/
theorem queryOrder_run (host : Host) (start : Env) (calls : List Call) (patterns : List String)
    (options : Option GetOptions) :
    let c := (system host).run (.new start) calls
    (∀ msg, c.get patterns options = .error msg → ∀ patterns',
      (∀ pattern, pattern ∈ patterns' ↔ pattern ∈ patterns) → c.get patterns' options = .error msg) ∧
    ∀ res, c.get patterns options = .ok res →
      ((∀ patterns', (∀ pattern, pattern ∈ patterns' ↔ pattern ∈ patterns) →
        ∃ res', c.get patterns' options = .ok res' ∧ res.Equal res') ↔
          ¬ c.Clashes (options.getD {}) patterns) := by
  intro c
  have hsound : c.Sound := sound_run host start calls
  refine ⟨fun msg herror patterns' hsame => ?_, fun res hget => ?_⟩
  · obtain ⟨pattern, hpattern, hfail⟩ := exists_fails_of_get herror
    rw [get_of_fails hsound ((hsame pattern).mpr hpattern) hfail, ← herror,
      get_of_fails hsound hpattern hfail]
  have hdraws := draws_of_get hsound hget
  have hreads : ∀ patterns', (∀ pattern, pattern ∈ patterns' ↔ pattern ∈ patterns) →
      ∃ res', c.get patterns' options = .ok res' ∧
        res'.IsView (.object (cleanedFields (c.patternsRead (options.getD {}) patterns'))) :=
    fun patterns' hsame => get_of_draws fun pattern hpattern => hdraws pattern ((hsame pattern).mp hpattern)
  obtain ⟨_, hget', hview⟩ := hreads patterns fun _ => Iff.rfl
  cases hget.symm.trans hget'
  constructor
  · rintro hequal ⟨pattern, hmem, pattern', hmem', p, q, hp, hq, hclash⟩
    have hboth : ∀ patterns', (∀ pattern, pattern ∈ patterns' ↔ pattern ∈ patterns) →
        res.IsView (.object (cleanedFields (c.patternsRead (options.getD {}) patterns'))) := by
      intro patterns' hsame
      obtain ⟨res', hres', view, hview, hview'⟩ := hequal patterns' hsame
      obtain ⟨_, hres'', hview''⟩ := hreads patterns' hsame
      cases hres'.symm.trans hres''
      rw [← hview'.unique hview'']
      exact hview
    have hsame : ∀ first ∈ patterns, ∀ second ∈ patterns, ∀ pattern,
        pattern ∈ first :: second :: patterns ↔ pattern ∈ patterns := by
      intro first hfirst second hsecond pattern
      simp only [List.mem_cons]
      refine ⟨?_, fun h => .inr (.inr h)⟩
      rintro (rfl | rfl | h)
      · exact hfirst
      · exact hsecond
      · exact h
    exact not_equal_of_clash hsound hp hq hclash patterns
      ((hboth _ (hsame pattern hmem pattern' hmem')).unique (hboth _ (hsame pattern' hmem' pattern hmem)))
  · intro hclash patterns' hsame
    obtain ⟨res', hres', hview'⟩ := hreads patterns' hsame
    rw [patternsRead_eq_of_mem_iff hsound hclash hsame] at hview'
    exact ⟨res', hres', _, hview, hview'⟩

/-- What is at a path is seen at the path. -/
theorem isView_jsonAt {res value : Json} (h : res.IsView view) (hat : jsonAt res path = some value) :
    value.IsView (view.lookup path) := by
  induction path generalizing res view with
  | nil =>
    rw [jsonAt] at hat
    cases hat
    rwa [JsonView.lookup_nil]
  | cons key path ih =>
    cases h with
    | leaf hleaf =>
      cases res with
      | object o => cases hleaf
      | null | bool b | number m e | string s | array elements => cases hat
    | @object o fields nodup habsent hfield =>
      rw [jsonAt] at hat
      split at hat
      · cases hat
      · next value' hfind => exact ih (hfield key value' hfind) hat

/-- Values that are the same have objects at the same paths. -/
theorem isObject_of_equal {res res' value value' : Json} (h : res.Equal res')
    (hat : jsonAt res path = some value) (hat' : jsonAt res' path = some value')
    (hobject : value'.isObject = true) : value.isObject = true := by
  obtain ⟨view, hview, hview'⟩ := h
  have hvalue := isView_jsonAt hview hat
  have hvalue' := isView_jsonAt hview' hat'
  by_contra hleaf
  rw [hvalue.eq_leaf (Bool.eq_false_iff.mpr hleaf)] at hvalue'
  cases hvalue' with
  | leaf hleaf' => exact Bool.false_ne_true (hleaf'.symm.trans hobject)

theorem exists_jsonAt {x : Exec Json} {b : Bool}
    (h : (x.toOption.bind fun res => (jsonAt res path).map Json.isObject) = some b) :
    ∃ res value, x = .ok res ∧ jsonAt res path = some value ∧ value.isObject = b := by
  cases x with
  | error msg => cases h
  | ok res =>
    obtain ⟨value, hat, hvalue⟩ := Option.map_eq_some_iff.mp h
    exact ⟨res, value, rfl, hat, hvalue⟩

/-- Heights are shown. -/
def sampleOptions : GetOptions := { withBlockHeight := some true }

/-- An account with a value of its own is read by itself and below it: the value with its height takes
the place of the node, or moves under the empty key of the node. -/
theorem not_queryOrder_run :
    ¬ ∀ (host : Host) (start : Env) (calls : List Call) (patterns patterns' : List String)
      (options : Option GetOptions) (res : Json),
      (∀ pattern, pattern ∈ patterns' ↔ pattern ∈ patterns) →
      ((system host).run (.new start) calls).get patterns options = .ok res →
      ∃ res', ((system host).run (.new start) calls).get patterns' options = .ok res' ∧ res.Equal res' := by
  intro h
  obtain ⟨res, value, hget, hat, hvalue⟩ : ∃ res value,
      sampleOwned.get ["alice", "alice/*"] (some sampleOptions) = .ok res ∧
        jsonAt res ["alice", ""] = some value ∧ value.isObject = false :=
    exists_jsonAt (by decide +kernel)
  obtain ⟨res', value', hget', hat', hobject⟩ : ∃ res value,
      sampleOwned.get ["alice/*", "alice"] (some sampleOptions) = .ok res ∧
        jsonAt res ["alice", ""] = some value ∧ value.isObject = true :=
    exists_jsonAt (by decide +kernel)
  obtain ⟨res'', hget'', hequal⟩ := h sampleHost (sampleEnv "social" 0 (Nat.zero_le _))
    [sampleLive, sampleOwnValue] ["alice", "alice/*"] ["alice/*", "alice"] (some sampleOptions) res
    (fun pattern => (List.Perm.swap "alice" "alice/*" []).mem_iff) hget
  cases hget'.symm.trans hget''
  rw [isObject_of_equal hequal hat hat' hobject] at hvalue
  cases hvalue

end Social

end UncContracts
