import UncContracts.Foundation.KeyedForest
import UncContracts.Social.Methods

/-!
# The tree of the social contract

The nodes of the contract as a forest. While a value is written below a node, that node and those
above it are in memory and not yet saved; what is written is said of the forest that a reader will
see, of which the contract has the part below the node.

## Main definitions

* `Contract.forest`: the forest of the stored nodes
* `Reads`: a forest of which the contract has what is below a node in memory
* `SetsField`: what writing a field does

## Main results

* `recursiveSet_writes`: writing a value below a node makes allowed writes there
* `walk_writes`: walking down a path makes writes below its first node
-/

namespace UncContracts.Social

open Foundation HasTarget

instance : HasTarget NodeValue where
  target
    | .node nodeId => some nodeId
    | _ => none

@[simp] theorem target_node (n : NodeId) : target (NodeValue.node n) = some n := rfl

@[simp] theorem target_value (v : ValueAtHeight) : target (NodeValue.value v) = none := rfl

@[simp] theorem target_deletedEntry (h : ℕ) : target (NodeValue.deletedEntry h) = none := rfl

theorem target_eq_some {v : NodeValue} {n : NodeId} : target v = some n ↔ v = .node n := by
  cases v <;> simp

theorem target_eq_none {v : NodeValue} : target v = none ↔ ∀ n, v ≠ .node n := by
  cases v <;> simp

/-- The forest of the stored nodes. -/
def Contract.forest (c : Contract) : Forest String NodeValue where
  entry n k := if n = 0 then c.rootNode.children.get k
    else (c.nodes.lookup n).bind fun node => node.children.get k
  count := c.nodeCount

/-- A key that the views do not add. -/
def PlainKey (key : String) : Prop := isSpecialKey key = false

theorem plainKey_empty : PlainKey EMPTY_KEY := rfl

/-! ## Nodes -/

section Nodes

variable {env : Env} {c : Contract} {node child : Node} {key : String} {n : NodeId}

theorem Contract.forest_entry_of_lookup (hn : n ≠ 0) (h : c.nodes.lookup n = some node) :
    c.forest.entry n = node.children.get := by
  funext k
  simp [Contract.forest, hn, h]

theorem internalUnwrapNode_eq_ok : c.internalUnwrapNode n = .ok child ↔
    ∃ node, c.nodes.lookup n = some node ∧ child = { node with nodeId := n } := by
  simp only [Contract.internalUnwrapNode, expect_eq_ok, Contract.internalGetNode,
    Option.map_eq_some_iff]
  constructor
  · rintro ⟨node, hlookup, rfl⟩
    exact ⟨node, hlookup, rfl⟩
  · rintro ⟨node, hlookup, rfl⟩
    exact ⟨node, hlookup, rfl⟩

theorem lookup_internalSetNode_self : (c.internalSetNode env node).nodes.lookup node.nodeId =
    some { node with nodeId := 0, blockHeight := env.blockHeight } := AList.lookup_insert _

theorem lookup_internalSetNode_of_ne (h : n ≠ node.nodeId) :
    (c.internalSetNode env node).nodes.lookup n = c.nodes.lookup n := AList.lookup_insert_ne h

theorem mem_internalSetNode :
    n ∈ (c.internalSetNode env node).nodes ↔ n = node.nodeId ∨ n ∈ c.nodes := AList.mem_insert _

theorem Contract.forest_internalSetNode_self (hn : node.nodeId ≠ 0) :
    (c.internalSetNode env node).forest.entry node.nodeId = node.children.get :=
  (forest_entry_of_lookup hn lookup_internalSetNode_self).trans rfl

theorem Contract.forest_internalSetNode_of_ne (h : n ≠ node.nodeId) :
    (c.internalSetNode env node).forest.entry n = c.forest.entry n := by
  funext k
  by_cases hn : n = 0
  · simp [Contract.forest, hn, Contract.internalSetNode]
  · simp only [Contract.forest, if_neg hn, lookup_internalSetNode_of_ne h]

@[simp] theorem Node.nodeId_insertChild {v : NodeValue} :
    (node.insertChild key v).nodeId = node.nodeId := rfl

/-- A new node has the value that was there before as its own. -/
theorem Node.new_eq_ok {value : Option NodeValue} : Node.new env n value = .ok child ↔
    (∀ v, value = some v → target v = none) ∧ child.nodeId = n ∧
      child.blockHeight = env.blockHeight ∧
      child.children = value.elim .empty (UnorderedMap.empty.insert EMPTY_KEY) := by
  obtain ⟨childId, height, children⟩ := child
  cases value with
  | none =>
    simp only [Node.new, pure_eq_ok, Node.mk.injEq]
    constructor
    · rintro ⟨rfl, rfl, rfl⟩
      exact ⟨by rintro v ⟨⟩, rfl, rfl, rfl⟩
    · rintro ⟨-, rfl, rfl, rfl⟩
      exact ⟨rfl, rfl, rfl⟩
  | some v =>
    cases v with
    | node id =>
      constructor
      · rintro ⟨⟩
      · rintro ⟨h, -⟩
        cases h _ rfl
    | value v | deletedEntry height =>
      simp only [Node.new, pure_eq_ok, Node.mk.injEq]
      constructor
      · rintro ⟨rfl, rfl, rfl⟩
        exact ⟨by rintro _ ⟨⟩; rfl, rfl, rfl, rfl⟩
      · rintro ⟨-, rfl, rfl, rfl⟩
        exact ⟨rfl, rfl, rfl⟩

/-- The entries of a new node. -/
theorem Node.get_of_new {value : Option NodeValue} (h : Node.new env n value = .ok child)
    (j : String) : child.children.get j = if j = EMPTY_KEY then value else none := by
  obtain ⟨-, -, -, hchildren⟩ := Node.new_eq_ok.mp h
  rw [hchildren]
  cases value with
  | none => simp
  | some v =>
    by_cases hj : j = EMPTY_KEY
    · subst hj
      simp
    · simp [UnorderedMap.get_insert_of_ne hj, hj]

theorem Node.target_of_new {value : Option NodeValue} (h : Node.new env n value = .ok child) :
    ∀ j u, child.children.get j = some u → PlainKey j ∧ target u = none := by
  intro j u hu
  rw [Node.get_of_new h] at hu
  split at hu
  · next heq => exact ⟨heq ▸ plainKey_empty, (Node.new_eq_ok.mp h).1 u hu⟩
  · cases hu

theorem Node.set_eq_ok {value : Json} {node' : Node} : node.set env key value = .ok node' ↔
    ∃ v, Node.entryOf env value = .ok v ∧ (∀ u, node.children.get key = some u → target u = none) ∧
      node' = node.insertChild key v := by
  simp only [Node.set, bind_eq_ok]
  constructor
  · rintro ⟨v, hv, h⟩
    refine ⟨v, hv, ?_⟩
    split at h
    · cases h
    · next hfree =>
      cases h
      refine ⟨?_, rfl⟩
      intro u hu
      exact target_eq_none.mpr fun id hid => hfree id (hid ▸ hu)
  · rintro ⟨v, hv, hfree, rfl⟩
    refine ⟨v, hv, ?_⟩
    split
    · next id hid => cases hfree _ hid
    · rfl

theorem Node.target_of_entryOf {value : Json} {v : NodeValue}
    (h : Node.entryOf env value = .ok v) : target v = none := by
  cases value <;> cases h <;> rfl

end Nodes

/-! ## Writing a field -/

/-- What writing a field below a node in memory does. -/
inductive SetsField (env : Env) (ok : Bool) (W : Finset NodeId) (c : Contract) (node : Node)
    (key : String) (value : Json) : Contract → Node → Prop
  /-- A value is put under the key. -/
  | leaf {v : NodeValue} (hok : ok = true) (hv : Node.entryOf env value = .ok v)
    (hfree : ∀ u, node.children.get key = some u → target u = none) :
    SetsField env ok W c node key value c (node.insertChild key v)
  /-- The field is written below the node that the key leads to. -/
  | into {id : NodeId} {child : Node} {c' : Contract}
    (hentry : node.children.get key = some (.node id)) (hchild : c.internalUnwrapNode id = .ok child)
    (h : Contract.recursiveSet env c child value ok W = .ok c') :
    SetsField env ok W c node key value c' node
  /-- The field is written below a new node, which takes the value that was there. -/
  | fresh {child : Node} {c' : Contract} (hok : ok = true)
    (hleaf : (value.isString || value.isNull) = false)
    (hkey : node.children.get key = none ∨ key ≠ EMPTY_KEY)
    (hcount : c.nodeCount + 1 ≤ u32Max)
    (hchild : Node.new env c.nodeCount (node.children.get key) = .ok child)
    (h : Contract.recursiveSet env { c with nodeCount := c.nodeCount + 1 } child value ok W =
      .ok c') : SetsField env ok W c node key value c' (node.insertChild key (.node c.nodeCount))

section Fields

variable {env : Env} {ok : Bool} {W : Finset NodeId} {c c' : Contract} {node node' : Node}
  {key : String} {value : Json} {obj : List (String × Json)}

theorem createNodeId_eq_ok {id : NodeId} : c.createNodeId = .ok (c', id) ↔
    c.nodeCount + 1 ≤ u32Max ∧ c' = { c with nodeCount := c.nodeCount + 1 } ∧ id = c.nodeCount := by
  simp only [Contract.createNodeId, bind_eq_ok, checkedAdd_eq_ok, pure_eq_ok, Prod.mk.injEq]
  constructor
  · rintro ⟨_, ⟨hcount, rfl⟩, rfl, rfl⟩
    exact ⟨hcount, rfl, rfl⟩
  · rintro ⟨hcount, rfl, rfl⟩
    exact ⟨_, ⟨hcount, rfl⟩, rfl, rfl⟩

/-- Writing the fields of an object writes the first one and then the others. -/
theorem setFields_cons (h : Contract.setFields env c node ((key, value) :: obj) ok W =
    .ok (c', node')) : isKeyValid key = true ∧ ∃ c₁ node₁,
      SetsField env ok W c node key value c₁ node₁ ∧
      Contract.setFields env c₁ node₁ obj ok W = .ok (c', node') := by
  simp only [Contract.setFields, assertKeyValid, bind_eq_ok, ensure_eq_ok] at h
  obtain ⟨_, hvalid, ⟨c₁, node₁⟩, hfield, h⟩ := h
  refine ⟨hvalid, c₁, node₁, ?_, h⟩
  -- Putting a value does not look at what is there, as long as it is no node.
  have hleaf : ok = true → (node.set env key value >>= fun node => pure (c, node)) =
      .ok (c₁, node₁) → SetsField env ok W c node key value c₁ node₁ := by
    intro hok hset
    simp only [bind_eq_ok, pure_eq_ok, Node.set_eq_ok, Prod.mk.injEq] at hset
    obtain ⟨_, ⟨v, hv, hfree, rfl⟩, rfl, rfl⟩ := hset
    exact .leaf hok hv hfree
  split at hfield
  · next hnone =>
    simp only [bind_eq_ok, ensure_eq_ok] at hfield
    obtain ⟨_, hok, hfield⟩ := hfield
    split at hfield
    · exact hleaf hok hfield
    · next hobject =>
      simp only [bind_eq_ok, pure_eq_ok, Prod.mk.injEq] at hfield
      obtain ⟨⟨c₂, id⟩, hid, child, hchild, c₃, hset, rfl, rfl⟩ := hfield
      obtain ⟨hcount, rfl, rfl⟩ := createNodeId_eq_ok.mp hid
      exact .fresh hok (Bool.eq_false_of_not_eq_true hobject) (.inl hnone) hcount
        (hnone ▸ hchild) hset
  · next id hentry =>
    simp only [bind_eq_ok, pure_eq_ok, Prod.mk.injEq] at hfield
    obtain ⟨child, hchild, c₂, hset, rfl, rfl⟩ := hfield
    exact .into hentry hchild hset
  · next old hold hentry =>
    simp only [bind_eq_ok, ensure_eq_ok] at hfield
    obtain ⟨_, hok, hfield⟩ := hfield
    split at hfield
    · exact hleaf hok hfield
    · next hobject =>
      simp only [bind_eq_ok, ensure_eq_ok, pure_eq_ok, Prod.mk.injEq] at hfield
      obtain ⟨_, hkey, ⟨c₂, id⟩, hid, child, hchild, c₃, hset, rfl, rfl⟩ := hfield
      obtain ⟨hcount, rfl, rfl⟩ := createNodeId_eq_ok.mp hid
      exact .fresh hok (Bool.eq_false_of_not_eq_true hobject) (.inr hkey) hcount
        (hentry ▸ hchild) hset

/-- Only objects are written without being a leaf. -/
theorem isObject_of_recursiveSet (h : Contract.recursiveSet env c node value ok W = .ok c')
    (hleaf : (value.isString || value.isNull) = false) : value.isObject = true := by
  cases value with
  | object fields => rfl
  | string s => cases hleaf
  | null => cases hleaf
  | bool b => cases h
  | number mantissa exponent => cases h
  | array elements => cases h

end Fields

/-! ## Writing a value -/

/-- The forest that a reader will see reads like the contract below a node in memory, and has the
entries of the node in memory. -/
structure Reads (F : Forest String NodeValue) (c : Contract) (node : Node) : Prop where
  grown : F.Grown
  count : F.count = c.nodeCount
  pos : 0 < node.nodeId
  lt_count : node.nodeId < c.nodeCount
  entry : F.entry node.nodeId = node.children.get
  below : ∀ m, node.nodeId < m → F.entry m = c.forest.entry m
  present : ∀ m k t, node.nodeId ≤ m → F.entry m k = some (.node t) → t ∈ c.nodes

/-- Nodes from some number on are made and saved, apart from those before the node in memory. -/
structure Extends (n : NodeId) (c c' : Contract) : Prop where
  frame : c' = { c with nodes := c'.nodes, nodeCount := c'.nodeCount }
  count_le : c.nodeCount ≤ c'.nodeCount
  kept : ∀ m, m < n → c'.nodes.lookup m = c.nodes.lookup m

section Extends

variable {n m : NodeId} {c c' c'' : Contract}

theorem Extends.refl (n : NodeId) (c : Contract) : Extends n c c := ⟨rfl, le_rfl, fun _ _ => rfl⟩

theorem Extends.trans (h : Extends n c c') (h' : Extends n c' c'') : Extends n c c'' := by
  refine ⟨?_, h.count_le.trans h'.count_le, ?_⟩
  · rw [h'.frame, h.frame]
  · intro m hm
    rw [h'.kept m hm, h.kept m hm]

theorem Extends.mono (h : Extends m c c') (hnm : n ≤ m) : Extends n c c' :=
  ⟨h.frame, h.count_le, fun j hj => h.kept j (hj.trans_le hnm)⟩

/-- The entries of the nodes before those that are saved stay, as do those of the root. -/
theorem Extends.forest_entry (h : Extends n c c') (hm : m < n) :
    c'.forest.entry m = c.forest.entry m := by
  funext k
  have hroot : c'.rootNode = c.rootNode := by rw [h.frame]
  simp only [Contract.forest, hroot, h.kept m hm]

end Extends

/-- What writing a value below a node does to the forest. -/
structure WroteValue (F : Forest String NodeValue) (c : Contract) (node : Node) (ok : Bool)
    (W : Finset NodeId) (L : String → Prop) (c' : Contract) (G : Forest String NodeValue) :
    Prop where
  writes : F.Writes node.nodeId (ok = true) (· ∈ W) PlainKey L G
  grows : Extends node.nodeId c c'
  count : G.count = c'.nodeCount
  entry : ∀ m, node.nodeId ≤ m → G.entry m = c'.forest.entry m
  present : ∀ m k t, node.nodeId ≤ m → G.entry m k = some (.node t) → t ∈ c'.nodes
  mem : ∀ t, t ∈ c'.nodes ↔ t ∈ c.nodes ∨ t = node.nodeId ∨ c.nodeCount ≤ t ∧ t < c'.nodeCount

/-- What writing fields below a node in memory does to the forest. -/
structure WroteFields (F : Forest String NodeValue) (c : Contract) (node : Node) (ok : Bool)
    (W : Finset NodeId) (L : String → Prop) (c' : Contract) (node' : Node)
    (G : Forest String NodeValue) : Prop where
  writes : F.Writes node.nodeId (ok = true) (· ∈ W) PlainKey L G
  grows : Extends (node.nodeId + 1) c c'
  nodeId : node'.nodeId = node.nodeId
  reads : Reads G c' node'
  mem : ∀ t, t ∈ c'.nodes ↔ t ∈ c.nodes ∨ c.nodeCount ≤ t ∧ t < c'.nodeCount

section Writes

variable {env : Env} {ok : Bool} {W : Finset NodeId} {L : String → Prop} {c c' c'' : Contract}
  {node node' node'' child : Node} {F G H : Forest String NodeValue} {key : String} {value : Json}
  {obj : List (String × Json)}

theorem Node.get_insertChild {v : NodeValue} (j : String) :
    (node.insertChild key v).children.get j = if j = key then some v else node.children.get j := by
  by_cases h : j = key
  · subst h
    simp [Node.insertChild]
  · simp [Node.insertChild, UnorderedMap.get_insert_of_ne h, h]

/-- A stored node below one in memory reads like the forest. -/
theorem Reads.of_stored (h : Reads F c node) {id : NodeId}
    (hentry : node.children.get key = some (.node id)) (hchild : c.internalUnwrapNode id = .ok child) :
    child.nodeId = id ∧ node.nodeId < id ∧ Reads F c child := by
  have hentry' : F.entry node.nodeId key = some (.node id) := h.entry ▸ hentry
  have hlt : node.nodeId < id := h.grown.lt_target _ _ _ _ hentry' rfl
  obtain ⟨stored, hlookup, rfl⟩ := internalUnwrapNode_eq_ok.mp hchild
  refine ⟨rfl, hlt, h.grown, h.count, h.pos.trans hlt, ?_, ?_, ?_, ?_⟩
  · exact h.count ▸ h.grown.target_lt _ _ _ _ hentry' rfl
  · rw [h.below id hlt]
    exact (Contract.forest_entry_of_lookup (h.pos.trans hlt).ne' hlookup).trans rfl
  · intro m hm
    exact h.below m (hlt.trans hm)
  · intro m k t hm
    exact h.present m k t (hlt.le.trans hm)

/-- A new node under a key of a stored one keeps the forest grown. -/
theorem grown_link_new (hgrown : F.Grown) (hcount : F.count = c.nodeCount)
    (hlt : node.nodeId < c.nodeCount) (hentry : F.entry node.nodeId = node.children.get)
    (hchild : Node.new env c.nodeCount (node.children.get key) = .ok child) :
    child.nodeId = c.nodeCount ∧
      (F.link node.nodeId key (.node c.nodeCount) child.children.get).Grown := by
  have hfree : F.Free node.nodeId key := by
    intro u hu
    exact (Node.new_eq_ok.mp hchild).1 u (hentry ▸ hu)
  have htarget : target (NodeValue.node c.nodeCount) = some F.count := by
    rw [hcount]
    rfl
  refine ⟨(Node.new_eq_ok.mp hchild).2.1, hgrown.link (hcount ▸ hlt) hfree htarget ?_⟩
  intro j u hu
  exact (Node.target_of_new hchild j u hu).2

/-- A new node below one in memory reads like the forest with it. -/
theorem Reads.of_new (h : Reads F c node)
    (hchild : Node.new env c.nodeCount (node.children.get key) = .ok child) :
    child.nodeId = c.nodeCount ∧ Reads
      (F.link node.nodeId key (.node c.nodeCount) child.children.get)
      { c with nodeCount := c.nodeCount + 1 } child := by
  obtain ⟨hid, hgrown⟩ := grown_link_new h.grown h.count h.lt_count h.entry hchild
  have hne : ∀ m, c.nodeCount < m → m ≠ F.count ∧ m ≠ node.nodeId := by
    intro m hm
    exact ⟨h.count ▸ hm.ne', (h.lt_count.trans hm).ne'⟩
  refine ⟨hid, hgrown, ?_, ?_, ?_, ?_, ?_, ?_⟩
  · simp [Forest.link, h.count]
  · rw [hid]
    exact h.pos.trans h.lt_count
  · rw [hid]
    exact Nat.lt_succ_self _
  · funext j
    simp [Forest.link, hid, h.count]
  · intro m hm
    rw [hid] at hm
    funext j
    simp only [Forest.link, if_neg (hne m hm).1, (hne m hm).2, false_and, if_false]
    rw [h.below m (h.lt_count.trans hm)]
    rfl
  · intro m k t hm hentry
    rw [hid] at hm
    simp only [Forest.link] at hentry
    split at hentry
    · cases (Node.target_of_new hchild k _ hentry).2
    · next hne =>
      split at hentry
      · next heq => exact absurd heq.1 (h.lt_count.trans_le hm).ne'
      · cases (h.grown.fresh m k (h.count ▸ hm)).symm.trans hentry

/-- A node in memory reads like the forest after a value was written below a node that it leads
to. -/
theorem Reads.of_wroteValue {node₁ : Node} (hid : node₁.nodeId = node.nodeId)
    (hpos : 0 < node.nodeId) (hlt : node.nodeId < child.nodeId)
    (hcount : child.nodeId < F.count) (hF : F.Grown)
    (hentry : F.entry node.nodeId = node₁.children.get)
    (hbelow : ∀ m, node.nodeId < m → m < child.nodeId → F.entry m = c.forest.entry m)
    (hpresent : ∀ m k t, node.nodeId ≤ m → m < child.nodeId → F.entry m k = some (.node t) →
      t ∈ c'.nodes) (h : WroteValue F c child ok W L c' G) : Reads G c' node₁ := by
  have hsame : ∀ m, m < child.nodeId → G.entry m = F.entry m := by
    intro m hm
    funext k
    exact h.writes.entry_eq_of_lt hF hcount hm
  refine ⟨h.writes.grown hF hcount, h.count, hid ▸ hpos, ?_, ?_, ?_, ?_⟩
  · rw [hid, ← h.count]
    exact (hlt.trans hcount).trans_le (h.writes.count_le hF hcount)
  · rw [hid, hsame _ hlt, hentry]
  · intro m hm
    rw [hid] at hm
    rcases Nat.lt_or_ge m child.nodeId with hm' | hm'
    · rw [hsame m hm', hbelow m hm hm', h.grows.forest_entry hm']
    · exact h.entry m hm'
  · intro m k t hm hentry
    rw [hid] at hm
    rcases Nat.lt_or_ge m child.nodeId with hm' | hm'
    · exact hpresent m k t hm hm' (hsame m hm' ▸ hentry)
    · exact h.present m k t hm' hentry

/-- Writing a value under a key of a node in memory. -/
theorem WroteFields.of_leaf (h : Reads F c node) {v : NodeValue} (hok : ok = true)
    (hkey : PlainKey key) (hv : target v = none) (hfree : ∀ u, node.children.get key = some u → target u = none) :
    WroteFields F c node ok W L c (node.insertChild key v) (F.put node.nodeId key v) := by
  have hfree' : F.Free node.nodeId key := fun u hu => hfree u (h.entry ▸ hu)
  have hlt : node.nodeId < F.count := h.count ▸ h.lt_count
  refine ⟨.put .refl ⟨.refl F _, .inl hok⟩ hkey hfree' hv, .refl _ c, rfl, ?_, ?_⟩
  · refine ⟨h.grown.put hlt hfree' hv, h.count, h.pos, h.lt_count, ?_, ?_, ?_⟩
    · funext j
      simp only [Forest.put, Node.nodeId_insertChild, true_and, Node.get_insertChild, h.entry]
    · intro m hm
      have hne : m ≠ node.nodeId := hm.ne'
      funext j
      simp only [Forest.put, hne, false_and, if_false, h.below m hm]
    · intro m k t hm hentry
      simp only [Forest.put] at hentry
      split at hentry
      · cases hentry
        cases hv
      · exact h.present m k t hm hentry
  · intro t
    refine ⟨.inl, ?_⟩
    rintro (ht | ⟨hle, hlt⟩)
    · exact ht
    · exact absurd hlt (Nat.not_lt.mpr hle)

/-- Writing a value below a node that a node in memory leads to. -/
theorem WroteFields.of_into (h : Reads F c node) {id : NodeId}
    (hentry : node.children.get key = some (.node id)) (hchild : c.internalUnwrapNode id = .ok child)
    (hwrote : WroteValue F c child ok W L c' G) : WroteFields F c node ok W L c' node G := by
  obtain ⟨hid, hlt, hreads⟩ := h.of_stored hentry hchild
  have hentry' : F.entry node.nodeId key = some (.node id) := h.entry ▸ hentry
  have hbelow : F.Below node.nodeId child.nodeId := .single ⟨key, .node id, hentry', hid ▸ rfl⟩
  have hcount : child.nodeId < F.count := h.count ▸ hreads.lt_count
  have hmem : ∀ t, t ∈ c.nodes → t ∈ c'.nodes := fun t ht => (hwrote.mem t).mpr (.inl ht)
  refine ⟨hwrote.writes.of_below h.grown (h.count ▸ h.lt_count) hbelow .inl,
    hwrote.grows.mono (hid ▸ hlt), rfl, ?_, ?_⟩
  · refine .of_wroteValue rfl h.pos (hid ▸ hlt) hcount h.grown h.entry (fun m hm _ => h.below m hm)
      ?_ hwrote
    intro m k t hm _ hentry
    exact hmem t (h.present m k t hm hentry)
  · intro t
    rw [hwrote.mem]
    constructor
    · rintro (ht | rfl | ht)
      · exact .inl ht
      · exact .inl (h.present node.nodeId key _ le_rfl (hid ▸ hentry'))
      · exact .inr ht
    · rintro (ht | ht)
      · exact .inl ht
      · exact .inr (.inr ht)

/-- Writing a value below a new node. -/
theorem WroteFields.of_fresh (h : Reads F c node) (hok : ok = true) (hkey : PlainKey key ∧ L key)
    (hchild : Node.new env c.nodeCount (node.children.get key) = .ok child)
    (hwrote : WroteValue (F.link node.nodeId key (.node c.nodeCount) child.children.get)
      { c with nodeCount := c.nodeCount + 1 } child ok W L c' G) :
    WroteFields F c node ok W L c' (node.insertChild key (.node c.nodeCount)) G := by
  obtain ⟨hid, hreads⟩ := h.of_new hchild
  have hfree : F.Free node.nodeId key := fun u hu =>
    (Node.new_eq_ok.mp hchild).1 u (h.entry ▸ hu)
  have hlt : node.nodeId < F.count := h.count ▸ h.lt_count
  have hltId : node.nodeId < child.nodeId := hid ▸ h.lt_count
  have hlink : F.Writes node.nodeId (ok = true) (· ∈ W) PlainKey L
      (F.link node.nodeId key (.node c.nodeCount) child.children.get) :=
    .link .refl ⟨.refl F _, .inl hok⟩ hkey hfree (by rw [h.count]; rfl) (Node.target_of_new hchild)
  have hentry : (F.link node.nodeId key (.node c.nodeCount) child.children.get).entry node.nodeId =
      (node.insertChild key (.node c.nodeCount)).children.get := by
    funext j
    simp only [Forest.link, if_neg hlt.ne, true_and, Node.get_insertChild, h.entry]
  have hbelow : (F.link node.nodeId key (.node c.nodeCount) child.children.get).Below node.nodeId
      child.nodeId := by
    refine .single ⟨key, .node c.nodeCount, ?_, hid ▸ rfl⟩
    rw [hentry]
    simp [Node.get_insertChild]
  have hcount : child.nodeId < (F.link node.nodeId key (.node c.nodeCount)
      child.children.get).count := by
    simp [Forest.link, hid, h.count]
  have hsame : ∀ m k, m ≠ node.nodeId → m < child.nodeId →
      (F.link node.nodeId key (.node c.nodeCount) child.children.get).entry m k = F.entry m k := by
    intro m k hm hlt
    have hne : m ≠ F.count := (h.count ▸ hid ▸ hlt : m < F.count).ne
    simp only [Forest.link, if_neg hne, hm, false_and, if_false]
  have hcreated : Extends (node.nodeId + 1) c { c with nodeCount := c.nodeCount + 1 } :=
    ⟨rfl, Nat.le_succ _, fun _ _ => rfl⟩
  refine ⟨hlink.trans (hwrote.writes.of_below hreads.grown ?_ hbelow .inl),
    hcreated.trans (hwrote.grows.mono hltId), rfl, ?_, ?_⟩
  · exact hltId.trans hcount
  · refine .of_wroteValue rfl h.pos hltId hcount hreads.grown hentry ?_ ?_ hwrote
    · intro m hm hm'
      funext k
      rw [hsame m k hm.ne' hm', h.below m hm]
      rfl
    · intro m k t hm hm' hentry
      by_cases heq : m = node.nodeId
      · subst heq
        simp only [Forest.link, if_neg hlt.ne, true_and] at hentry
        split at hentry
        · cases hentry
          exact (hwrote.mem _).mpr (.inr (.inl hid.symm))
        · exact (hwrote.mem t).mpr (.inl (h.present _ k t hm hentry))
      · rw [hsame m k heq hm'] at hentry
        exact (hwrote.mem t).mpr (.inl (h.present m k t hm hentry))
  · intro t
    have hle : c.nodeCount + 1 ≤ c'.nodeCount := hwrote.grows.count_le
    rw [hwrote.mem, hid]
    constructor
    · rintro (ht | rfl | ⟨hge, ht⟩)
      · exact .inl ht
      · exact .inr ⟨le_rfl, hle⟩
      · exact .inr ⟨(Nat.le_succ _).trans hge, ht⟩
    · rintro (ht | ⟨hge, ht⟩)
      · exact .inl ht
      · rcases Nat.eq_or_lt_of_le hge with rfl | hge
        · exact .inr (.inl rfl)
        · exact .inr (.inr ⟨hge, ht⟩)

/-- What is numbered from `i` to `j` and then from `j` to `l` is numbered from `i` to `l`. -/
theorem or_between_trans {p : Prop} {i j l t : ℕ} (hij : i ≤ j) (hjl : j ≤ l) :
    ((p ∨ i ≤ t ∧ t < j) ∨ j ≤ t ∧ t < l) ↔ p ∨ i ≤ t ∧ t < l := by
  constructor
  · rintro ((hp | ⟨hge, ht⟩) | ⟨hge, ht⟩)
    · exact .inl hp
    · exact .inr ⟨hge, ht.trans_le hjl⟩
    · exact .inr ⟨hij.trans hge, ht⟩
  · rintro (hp | ⟨hge, ht⟩)
    · exact .inl (.inl hp)
    · rcases Nat.lt_or_ge t j with hlt | hge'
      · exact .inl (.inr ⟨hge, hlt⟩)
      · exact .inr ⟨hge', ht⟩

theorem WroteFields.trans (h : WroteFields F c node ok W L c' node' G)
    (h' : WroteFields G c' node' ok W L c'' node'' H) :
    WroteFields F c node ok W L c'' node'' H := by
  refine ⟨h.writes.trans (h.nodeId ▸ h'.writes), h.grows.trans (h.nodeId ▸ h'.grows),
    h'.nodeId.trans h.nodeId, h'.reads, ?_⟩
  intro t
  rw [h'.mem, h.mem]
  exact or_between_trans h.grows.count_le h'.grows.count_le

/-- A node in memory that is saved. -/
theorem WroteFields.saved {ok' : Bool} (hF : Reads F c node)
    (h : WroteFields F c node ok W L c' node' G)
    (hok : ok = true → ok' = true ∨ node.nodeId ∈ W) :
    WroteValue F c node ok' W L (c'.internalSetNode env node') G := by
  have hid := h.nodeId
  have hpos : node'.nodeId ≠ 0 := h.reads.pos.ne'
  refine ⟨?_, ?_, h.reads.count, ?_, ?_, ?_⟩
  · refine h.writes.of_below hF.grown (hF.count ▸ hF.lt_count) (.refl F _) ?_
    intro hok'
    rcases hok hok' with hok' | hmem
    · exact .inl hok'
    · exact .inr ⟨node.nodeId, hmem, .refl F _, .refl F _⟩
  · refine (h.grows.mono (Nat.le_succ _)).trans ⟨rfl, le_rfl, ?_⟩
    intro m hm
    exact lookup_internalSetNode_of_ne (hid ▸ hm.ne)
  · intro m hm
    rcases Nat.eq_or_lt_of_le hm with rfl | hm
    · rw [← hid, h.reads.entry, Contract.forest_internalSetNode_self hpos]
    · rw [h.reads.below m (hid ▸ hm), Contract.forest_internalSetNode_of_ne (hid ▸ hm.ne')]
  · intro m k t hm hentry
    exact mem_internalSetNode.mpr (.inr (h.reads.present m k t (hid ▸ hm) hentry))
  · intro t
    rw [mem_internalSetNode, h.mem, hid]
    constructor
    · rintro (rfl | ht | ht)
      · exact .inr (.inl rfl)
      · exact .inl ht
      · exact .inr (.inr ht)
    · rintro (ht | rfl | ht)
      · exact .inr (.inl ht)
      · exact .inl rfl
      · exact .inr (.inr ht)

theorem recursiveSet_object (h : Contract.recursiveSet env c node (.object obj) ok W = .ok c') :
    ∃ c₁ node₁, Contract.setFields env c node obj (ok || decide (node.nodeId ∈ W)) W =
      .ok (c₁, node₁) ∧ c' = c₁.internalSetNode env node₁ := by
  simp only [Contract.recursiveSet, bind_eq_ok, pure_eq_ok] at h
  obtain ⟨⟨c₁, node₁⟩, hfields, rfl⟩ := h
  exact ⟨c₁, node₁, hfields, rfl⟩

/-- A string or `null` that is written below a node becomes its own value. -/
theorem recursiveSet_leaf (hleaf : (value.isString || value.isNull) = true)
    (h : Contract.recursiveSet env c node value ok W = .ok c') :
    (ok || decide (node.nodeId ∈ W)) = true ∧ ∃ v, Node.entryOf env value = .ok v ∧
      (∀ u, node.children.get EMPTY_KEY = some u → target u = none) ∧
      c' = c.internalSetNode env (node.insertChild EMPTY_KEY v) := by
  have hset : (ensure ((ok || decide (node.nodeId ∈ W)) = true) ERR_PERMISSION_DENIED >>= fun _ =>
      node.set env EMPTY_KEY value >>= fun node => pure (c.internalSetNode env node)) = .ok c' := by
    cases value with
    | string s => simpa only [Contract.recursiveSet] using h
    | null => simpa only [Contract.recursiveSet] using h
    | object _ | bool _ | number _ _ | array _ => cases hleaf
  simp only [bind_eq_ok, ensure_eq_ok, pure_eq_ok, Node.set_eq_ok] at hset
  obtain ⟨_, hok, _, ⟨v, hv, hfree, rfl⟩, rfl⟩ := hset
  exact ⟨hok, v, hv, hfree, rfl⟩

mutual

/-- **Writing a value.** It makes writes below its node that are allowed to who has it or some node
on the way, and new nodes only under the keys of its objects. -/
theorem recursiveSet_writes (value : Json) {ok : Bool} {c c' : Contract} {node : Node}
    {F : Forest String NodeValue} (hL : ∀ k ∈ value.objectKeys, L k) (hF : Reads F c node)
    (h : Contract.recursiveSet env c node value ok W = .ok c') :
    ∃ G, WroteValue F c node ok W L c' G := by
  match value, hL, h with
  | .object obj, hL, h =>
    obtain ⟨c₁, node₁, hfields, rfl⟩ := recursiveSet_object h
    obtain ⟨G, hG⟩ := setFields_writes obj hL hF hfields
    exact ⟨G, hG.saved hF (by simp)⟩
  | .string s, hL, h =>
    obtain ⟨hok, v, hv, hfree, rfl⟩ := recursiveSet_leaf rfl h
    exact ⟨_, (WroteFields.of_leaf hF hok plainKey_empty (Node.target_of_entryOf hv) hfree).saved hF (by simp)⟩
  | .null, hL, h =>
    obtain ⟨hok, v, hv, hfree, rfl⟩ := recursiveSet_leaf rfl h
    exact ⟨_, (WroteFields.of_leaf hF hok plainKey_empty (Node.target_of_entryOf hv) hfree).saved hF (by simp)⟩
  | .bool _, _, h | .number _ _, _, h | .array _, _, h => cases h

theorem setFields_writes (obj : List (String × Json)) {ok : Bool} {c c' : Contract}
    {node node' : Node} {F : Forest String NodeValue} (hL : ∀ k ∈ Json.objectKeysOf obj, L k)
    (hF : Reads F c node) (h : Contract.setFields env c node obj ok W = .ok (c', node')) :
    ∃ G, WroteFields F c node ok W L c' node' G := by
  match obj, hL, h with
  | [], hL, h =>
    cases h
    refine ⟨F, .refl, .refl _ c, rfl, hF, fun t => ⟨.inl, ?_⟩⟩
    rintro (ht | ⟨hle, hlt⟩)
    · exact ht
    · exact absurd hlt (Nat.not_lt.mpr hle)
  | (key, value) :: obj, hL, h =>
    obtain ⟨hvalid, c₁, node₁, hfield, h⟩ := setFields_cons h
    have hplain : PlainKey key := isSpecialKey_of_isKeyValid hvalid
    simp only [Json.objectKeysOf, List.mem_append] at hL
    have hvalue : ∀ k ∈ value.objectKeys, L k := fun k hk => hL k (.inr (.inl hk))
    have hfirst : ∃ G, WroteFields F c node ok W L c₁ node₁ G := by
      cases hfield with
      | leaf hok hv hfree => exact ⟨_, .of_leaf hF hok hplain (Node.target_of_entryOf hv) hfree⟩
      | into hentry hchild hset =>
        obtain ⟨G, hG⟩ := recursiveSet_writes value hvalue (hF.of_stored hentry hchild).2.2 hset
        exact ⟨G, .of_into hF hentry hchild hG⟩
      | fresh hok hleaf hkey hcount hchild hset =>
        have hobject := isObject_of_recursiveSet hset hleaf
        obtain ⟨G, hG⟩ := recursiveSet_writes value hvalue (hF.of_new hchild).2 hset
        exact ⟨G, .of_fresh hF hok ⟨hplain, hL key (.inl (by simp [hobject]))⟩ hchild hG⟩
    obtain ⟨G, hG⟩ := hfirst
    obtain ⟨H, hH⟩ := setFields_writes obj (fun k hk => hL k (.inr (.inr hk))) hG.reads h
    exact ⟨H, hG.trans hH⟩

end

end Writes

/-! ## Walking down a path -/

/-- The forest that a reader will see reads like the contract apart from a node in memory, which may
not be saved yet. -/
structure InMemory (F : Forest String NodeValue) (c : Contract) (node : Node) : Prop where
  grown : F.Grown
  count : F.count = c.nodeCount
  pos : 0 < node.nodeId
  lt_count : node.nodeId < c.nodeCount
  entry : F.entry node.nodeId = node.children.get
  other : ∀ m, m ≠ node.nodeId → F.entry m = c.forest.entry m
  present : ∀ m k t, F.entry m k = some (.node t) → t ∈ c.nodes ∨ t = node.nodeId

/-- What walking down a path does to the forest. -/
structure Walked (F : Forest String NodeValue) (c : Contract) (node : Node) (L : String → Prop)
    (c' : Contract) (node' : Node) (G : Forest String NodeValue) : Prop where
  writes : F.Writes node.nodeId True (fun _ => False) PlainKey L G
  inMemory : InMemory G c' node'
  frame : c' = { c with nodes := c'.nodes, nodeCount := c'.nodeCount }
  count_le : c.nodeCount ≤ c'.nodeCount
  below : G.Below node.nodeId node'.nodeId
  mem : ∀ t, t ∈ c'.nodes ∨ t = node'.nodeId ↔
    t ∈ c.nodes ∨ t = node.nodeId ∨ c.nodeCount ≤ t ∧ t < c'.nodeCount

section Walk

variable {env : Env} {L : String → Prop} {c c' : Contract} {node node' child : Node}
  {F G : Forest String NodeValue} {key : String} {path : List String}

theorem InMemory.saved (h : InMemory F c node) : (c.internalSetNode env node).forest = F := by
  refine Forest.ext ?_ h.count.symm
  funext m
  by_cases hm : m = node.nodeId
  · rw [hm, Contract.forest_internalSetNode_self h.pos.ne', h.entry]
  · rw [Contract.forest_internalSetNode_of_ne hm, h.other m hm]

/-- The walk goes on at a node that the one in memory leads to. -/
theorem InMemory.of_stored (env : Env) (h : InMemory F c node) {id : NodeId}
    (hentry : node.children.get key = some (.node id)) (hchild : c.internalUnwrapNode id = .ok child) :
    child.nodeId = id ∧ node.nodeId < id ∧ InMemory F (c.internalSetNode env node) child := by
  have hentry' : F.entry node.nodeId key = some (.node id) := h.entry ▸ hentry
  have hlt : node.nodeId < id := h.grown.lt_target _ _ _ _ hentry' rfl
  obtain ⟨stored, hlookup, rfl⟩ := internalUnwrapNode_eq_ok.mp hchild
  refine ⟨rfl, hlt, h.grown, h.count, h.pos.trans hlt, ?_, ?_, ?_, ?_⟩
  · exact h.count ▸ h.grown.target_lt _ _ _ _ hentry' rfl
  · rw [h.other id hlt.ne']
    exact (Contract.forest_entry_of_lookup (h.pos.trans hlt).ne' hlookup).trans rfl
  · intro m _
    rw [h.saved]
  · intro m k t ht
    refine .inl (mem_internalSetNode.mpr ?_)
    rcases h.present m k t ht with ht | rfl
    · exact .inr ht
    · exact .inl rfl

/-- The walk goes on at a new node. -/
theorem InMemory.of_new (h : InMemory F c node)
    (hchild : Node.new env c.nodeCount (node.children.get key) = .ok child) :
    child.nodeId = c.nodeCount ∧ InMemory
      (F.link node.nodeId key (.node c.nodeCount) child.children.get)
      (({ c with nodeCount := c.nodeCount + 1 } : Contract).internalSetNode env
        (node.insertChild key (.node c.nodeCount))) child := by
  obtain ⟨hid, hgrown⟩ := grown_link_new h.grown h.count h.lt_count h.entry hchild
  refine ⟨hid, hgrown, ?_, ?_, ?_, ?_, ?_, ?_⟩
  · simp [Forest.link, h.count, Contract.internalSetNode]
  · rw [hid]
    exact h.pos.trans h.lt_count
  · rw [hid]
    exact Nat.lt_succ_self _
  · funext j
    simp [Forest.link, hid, h.count]
  · intro m hm
    rw [hid, ← h.count] at hm
    by_cases hnode : m = node.nodeId
    · subst hnode
      have hpos : (node.insertChild key (.node c.nodeCount)).nodeId ≠ 0 := h.pos.ne'
      refine Eq.trans ?_ (Contract.forest_internalSetNode_self hpos).symm
      funext j
      simp only [Forest.link, if_neg hm, true_and, Node.get_insertChild, h.entry]
    · have hne : m ≠ (node.insertChild key (.node c.nodeCount)).nodeId := hnode
      rw [Contract.forest_internalSetNode_of_ne hne]
      funext j
      simp only [Forest.link, if_neg hm, hnode, false_and, if_false, h.other m hnode]
      rfl
  · intro m k t ht
    rw [hid, mem_internalSetNode, Node.nodeId_insertChild]
    simp only [Forest.link] at ht
    split at ht
    · cases (Node.target_of_new hchild k _ ht).2
    · split at ht
      · cases ht
        exact .inr rfl
      · rcases h.present m k t ht with ht | rfl
        · exact .inl (.inr ht)
        · exact .inl (.inl rfl)

theorem Walked.refl (hF : InMemory F c node) : Walked F c node L c node F := by
  refine ⟨.refl, hF, rfl, le_rfl, .refl F _, ?_⟩
  intro t
  constructor
  · rintro (ht | ht)
    · exact .inl ht
    · exact .inr (.inl ht)
  · rintro (ht | ht | ⟨hge, hlt⟩)
    · exact .inl ht
    · exact .inr ht
    · exact absurd hlt (Nat.not_lt.mpr hge)

/-- A walk through a node that is there under a key. -/
theorem Walked.of_stored (hF : InMemory F c node) {id : NodeId}
    (hentry : node.children.get key = some (.node id)) (hchild : c.internalUnwrapNode id = .ok child)
    (hG : Walked F (c.internalSetNode env node) child L c' node' G) :
    Walked F c node L c' node' G := by
  obtain ⟨hid, hlt, hmemory⟩ := hF.of_stored env hentry hchild
  have hentry' : F.entry node.nodeId key = some (.node id) := hF.entry ▸ hentry
  have hbelow : F.Below node.nodeId child.nodeId := .single ⟨key, .node id, hentry', hid ▸ rfl⟩
  have hcount : node.nodeId < F.count := hF.count ▸ hF.lt_count
  have hcount' := hF.grown.lt_count_of_below hbelow hcount
  refine ⟨hG.writes.of_below hF.grown hcount hbelow .inl, hG.inMemory, hG.frame.trans rfl,
    hG.count_le, ?_, ?_⟩
  · exact (hbelow.mono (hG.writes.entry_of_target hF.grown hcount')).trans hG.below
  · intro t
    rw [hG.mem, mem_internalSetNode]
    constructor
    · rintro ((rfl | ht) | rfl | ht)
      · exact .inr (.inl rfl)
      · exact .inl ht
      · rcases hF.present _ _ _ hentry' with ht | ht
        · exact .inl (hid ▸ ht)
        · exact .inr (.inl (hid.trans ht))
      · exact .inr (.inr ht)
    · rintro (ht | rfl | ht)
      · exact .inl (.inr ht)
      · exact .inl (.inl rfl)
      · exact .inr (.inr ht)

/-- A walk through a new node, that is made under a key without a node, with the value that was
there. -/
theorem Walked.of_new (hF : InMemory F c node) (hvalid : isKeyValid key = true) (hkey : L key)
    (hchild : Node.new env c.nodeCount (node.children.get key) = .ok child)
    (hG : Walked (F.link node.nodeId key (.node c.nodeCount) child.children.get)
      (({ c with nodeCount := c.nodeCount + 1 } : Contract).internalSetNode env
        (node.insertChild key (.node c.nodeCount))) child L c' node' G) :
    Walked F c node L c' node' G := by
  obtain ⟨hid, hmemory⟩ := hF.of_new hchild
  have hlt : node.nodeId < F.count := hF.count ▸ hF.lt_count
  have hfree : F.Free node.nodeId key := fun u hu =>
    (Node.new_eq_ok.mp hchild).1 u (hF.entry ▸ hu)
  have hlink : F.Writes node.nodeId True (fun _ => False) PlainKey L
      (F.link node.nodeId key (.node c.nodeCount) child.children.get) :=
    .link .refl ⟨.refl F _, .inl trivial⟩ ⟨isSpecialKey_of_isKeyValid hvalid, hkey⟩ hfree
      (by rw [hF.count]; rfl) (Node.target_of_new hchild)
  have hbelow : (F.link node.nodeId key (.node c.nodeCount) child.children.get).Below
      node.nodeId child.nodeId := by
    refine .single ⟨key, .node c.nodeCount, ?_, hid ▸ rfl⟩
    simp [Forest.link, hlt.ne]
  have hcount : node.nodeId < (F.link node.nodeId key (.node c.nodeCount)
      child.children.get).count := hlt.trans (Nat.lt_succ_self _)
  have hcount' := hmemory.grown.lt_count_of_below hbelow hcount
  refine ⟨hlink.trans (hG.writes.of_below hmemory.grown hcount hbelow .inl), hG.inMemory,
    hG.frame.trans rfl, (Nat.le_succ _).trans hG.count_le, ?_, ?_⟩
  · exact (hbelow.mono (hG.writes.entry_of_target hmemory.grown hcount')).trans hG.below
  · intro t
    have hle : c.nodeCount + 1 ≤ c'.nodeCount := hG.count_le
    rw [hG.mem, mem_internalSetNode, Node.nodeId_insertChild, hid]
    constructor
    · rintro ((rfl | ht) | rfl | ⟨hge, ht⟩)
      · exact .inr (.inl rfl)
      · exact .inl ht
      · exact .inr (.inr ⟨le_rfl, hle⟩)
      · exact .inr (.inr ⟨(Nat.le_succ _).trans hge, ht⟩)
    · rintro (ht | rfl | ⟨hge, ht⟩)
      · exact .inl (.inr ht)
      · exact .inl (.inl rfl)
      · rcases Nat.eq_or_lt_of_le hge with rfl | hge
        · exact .inr (.inl rfl)
        · exact .inr (.inr ⟨hge, ht⟩)

/-- **Walking down a path.** It makes writes below its first node, and new nodes only under the keys
of the path. -/
theorem walk_writes (hL : ∀ k ∈ path, L k) (hF : InMemory F c node)
    (h : Contract.walk env c node path = .ok (c', node')) : ∃ G, Walked F c node L c' node' G := by
  induction path generalizing c node F with
  | nil =>
    cases h
    exact ⟨F, .refl hF⟩
  | cons key path ih =>
    have hpath : ∀ k ∈ path, L k := fun k hk => hL k (List.mem_cons_of_mem key hk)
    have hkey : L key := hL key (List.mem_cons_self ..)
    simp only [Contract.walk, assertKeyValid, bind_eq_ok, ensure_eq_ok] at h
    obtain ⟨_, hvalid, h⟩ := h
    split at h
    · next hnone =>
      simp only [bind_eq_ok] at h
      obtain ⟨⟨c₁, id⟩, hid, child, hchild, h⟩ := h
      obtain ⟨-, rfl, rfl⟩ := createNodeId_eq_ok.mp hid
      rw [← hnone] at hchild
      obtain ⟨G, hG⟩ := ih hpath (hF.of_new hchild).2 h
      exact ⟨G, .of_new hF hvalid hkey hchild hG⟩
    · next id hentry =>
      simp only [bind_eq_ok] at h
      obtain ⟨child, hchild, h⟩ := h
      obtain ⟨G, hG⟩ := ih hpath (hF.of_stored env hentry hchild).2.2 h
      exact ⟨G, .of_stored hF hentry hchild hG⟩
    · next old _ hentry =>
      simp only [bind_eq_ok, ensure_eq_ok] at h
      obtain ⟨_, -, ⟨c₁, id⟩, hid, child, hchild, h⟩ := h
      obtain ⟨-, rfl, rfl⟩ := createNodeId_eq_ok.mp hid
      rw [← hentry] at hchild
      obtain ⟨G, hG⟩ := ih hpath (hF.of_new hchild).2 h
      exact ⟨G, .of_new hF hvalid hkey hchild hG⟩

end Walk

end UncContracts.Social
