import Mathlib.Algebra.Order.BigOperators.Group.List
import UncContracts.Social.Heights
import UncContracts.Social.Registers

/-!
# The dates of nodes

A node is saved at the height of the block whenever something below it is written, all the way up to
the node of its account. So as long as blocks come in order, a node is at least as high as every value
and every node below it, and the height that is read beside a node is never before what is shown below.

## Main definitions

* `Node.Young`, `Contract.Young`: heights up to one
* `Restamps`: what writing below a node does to the heights
* `Dated`: every node is at least as high as what it leads to

## Main results

* `restamps_of_recursiveSet`, `restamps_of_walk`: writing data and granting keys
* `dated_of_step`: a step keeps the nodes dated
* `dated_run`: after every run of calls in the order of blocks the nodes are dated
* `below_not_newer`: after such a run nothing below a node is newer than the node
-/

namespace UncContracts.Social

open Foundation HasTarget

/-- The values of a node are up to a height. -/
def Node.Young (node : Node) (height : ℕ) : Prop :=
  ∀ k v b, node.children.get k = some v → v.getBlockHeight = some b → b ≤ height

/-- The nodes and the values are up to a height. -/
def Contract.Young (c : Contract) (height : ℕ) : Prop :=
  ∀ m node, c.internalGetNode m = some node → node.blockHeight ≤ height ∧ node.Young height

/-- Writing below a node: another node is saved at the height of the block, or it is as before and
leads to nodes with the heights from before. -/
def Restamps (env : Env) (n : NodeId) (c c' : Contract) : Prop :=
  ∀ m node, 0 < m → m ≠ n → c'.internalGetNode m = some node →
    node.blockHeight = env.blockHeight ∨ c.internalGetNode m = some node ∧
      ∀ k t, node.children.get k = some (.node t) → t ≠ n →
        (c'.internalGetNode t).map (·.blockHeight) = (c.internalGetNode t).map (·.blockHeight)

/-- A node is saved at the height of the block. -/
def StampedAt (env : Env) (n : NodeId) (c : Contract) : Prop :=
  ∀ node, c.internalGetNode n = some node → node.blockHeight = env.blockHeight

/-- The edges of the stored nodes are in a forest. -/
def KnownIn (F : Forest String NodeValue) (c : Contract) : Prop :=
  ∀ m k t, c.forest.entry m k = some (.node t) → F.entry m k = some (.node t)

section Restamps

variable {env : Env} {ok : Bool} {W : Finset NodeId} {L : String → Prop} {c c' c'' : Contract}
  {node node' child : Node} {n t : NodeId} {F G : Forest String NodeValue} {key : String}
  {value : Json} {height : ℕ}

theorem Restamps.refl (env : Env) (n : NodeId) (c : Contract) : Restamps env n c c :=
  fun _ _ _ _ hget => .inr ⟨hget, fun _ _ _ _ => rfl⟩

theorem Restamps.trans (h : Restamps env n c c') (h' : Restamps env n c' c'') :
    Restamps env n c c'' := by
  intro m node hpos hm hget
  rcases h' m node hpos hm hget with hstamped | ⟨hget', hsame'⟩
  · exact .inl hstamped
  · rcases h m node hpos hm hget' with hstamped | ⟨hget'', hsame⟩
    · exact .inl hstamped
    · exact .inr ⟨hget'', fun k t hentry ht => (hsame' k t hentry ht).trans (hsame k t hentry ht)⟩

theorem entry_of_internalGetNode (hpos : 0 < n) (hget : c.internalGetNode n = some node) (k : String) :
    c.forest.entry n k = node.children.get k := by
  rw [forest_entry_eq hpos.ne', hget]
  rfl

/-- Writing below a node that another one leads to is writing below that one. -/
theorem Restamps.of_child (h : Restamps env t c c') (hstamped : StampedAt env t c') (hF : F.Grown)
    (hknown : KnownIn F c) (hentry : F.entry n key = some (.node t)) : Restamps env n c c' := by
  intro m node hpos hm hget
  by_cases heq : m = t
  · subst heq
    exact .inl (hstamped node hget)
  · refine (h m node hpos heq hget).imp_right fun ⟨hget', hsame⟩ => ⟨hget', fun k u hu _ => ?_⟩
    refine hsame k u hu ?_
    rintro rfl
    have hparent := hknown m k u ((entry_of_internalGetNode hpos hget' k).trans hu)
    exact hm (hF.unique _ _ _ _ _ _ _ hparent rfl hentry rfl).1

theorem Restamps.saved (h : Restamps env n c c') (hid : node.nodeId = n) :
    Restamps env n c (c'.internalSetNode env node) := by
  subst hid
  intro m node' hpos hm hget
  rw [internalGetNode_internalSetNode, if_neg hm] at hget
  refine (h m node' hpos hm hget).imp_right fun ⟨hget', hsame⟩ => ⟨hget', fun k t hentry ht => ?_⟩
  rw [internalGetNode_internalSetNode, if_neg ht]
  exact hsame k t hentry ht

theorem stampedAt_saved (env : Env) (c : Contract) (node : Node) :
    StampedAt env node.nodeId (c.internalSetNode env node) := by
  intro node' hget
  rw [internalGetNode_internalSetNode, if_pos rfl] at hget
  cases hget
  rfl

theorem Contract.Young.saved (h : c.Young env.blockHeight) (hnode : node.Young env.blockHeight) :
    (c.internalSetNode env node).Young env.blockHeight := by
  intro m node' hget
  rw [internalGetNode_internalSetNode] at hget
  split at hget
  · cases hget
    exact ⟨le_rfl, hnode⟩
  · exact h m node' hget

theorem Node.Young.insertChild {v : NodeValue} (h : node.Young height)
    (hv : ∀ b, v.getBlockHeight = some b → b ≤ height) : (node.insertChild key v).Young height := by
  intro k u b hu hb
  rw [Node.get_insertChild] at hu
  split at hu
  · cases hu
    exact hv b hb
  · exact h k u b hu hb

/-- A new node has at most the value that was there. -/
theorem Node.Young.of_new (h : node.Young height)
    (hchild : Node.new env n (node.children.get key) = .ok child) : child.Young height := by
  intro k u b hu hb
  rw [Node.get_of_new hchild] at hu
  split at hu
  · exact h key u b hu hb
  · cases hu

theorem young_of_entryOf {v : NodeValue} (hv : Node.entryOf env value = .ok v) :
    ∀ b, v.getBlockHeight = some b → b ≤ env.blockHeight := by
  intro b hb
  cases value with
  | string s =>
    cases hv
    cases hb
    exact le_rfl
  | null =>
    cases hv
    cases hb
    exact le_rfl
  | bool _ | number _ _ | array _ | object _ => cases hv

/-! ## Writing data -/

/-- The edges of the stored nodes stay in the forest when fields are written. -/
theorem WroteFields.known (h : WroteFields F c node ok W L c' node' G) (hF : Reads F c node)
    (hknown : KnownIn F c) : KnownIn G c' := by
  have hkept := h.writes.entry_of_target hF.grown (hF.count ▸ hF.lt_count)
  intro m k t hentry
  by_cases hm : node'.nodeId < m
  · rw [h.reads.below m hm]
    exact hentry
  · refine hkept m k _ t (hknown m k t ?_) rfl
    rw [← hentry]
    by_cases hzero : m = 0
    · subst hzero
      show c.rootNode.children.get k = c'.rootNode.children.get k
      rw [h.grows.frame]
    · have hlookup := h.grows.kept m (Nat.lt_succ_of_le (h.nodeId ▸ Nat.le_of_not_lt hm))
      rw [forest_entry_eq hzero, forest_entry_eq hzero, Contract.internalGetNode,
        Contract.internalGetNode, hlookup]

mutual

/-- **Writing a value** below a node saves every node on the way at the height of the block. -/
theorem restamps_of_recursiveSet (value : Json) {ok : Bool} {c c' : Contract} {node : Node}
    {F : Forest String NodeValue} (hyoung : c.Young env.blockHeight)
    (hnode : node.Young env.blockHeight) (hF : Reads F c node) (hknown : KnownIn F c)
    (h : Contract.recursiveSet env c node value ok W = .ok c') :
    Restamps env node.nodeId c c' ∧ StampedAt env node.nodeId c' ∧ c'.Young env.blockHeight := by
  have hleaf : (value.isString || value.isNull) = true →
      Restamps env node.nodeId c c' ∧ StampedAt env node.nodeId c' ∧ c'.Young env.blockHeight := by
    intro hleaf
    obtain ⟨-, v, hv, -, rfl⟩ := recursiveSet_leaf hleaf h
    exact ⟨(Restamps.refl env _ c).saved rfl, stampedAt_saved env c _,
      hyoung.saved (hnode.insertChild (young_of_entryOf hv))⟩
  match value, h, hleaf with
  | .object obj, h, _ =>
    obtain ⟨c₁, node₁, hfields, rfl⟩ := recursiveSet_object h
    obtain ⟨hid, hrestamps, hyoung₁, hnode₁⟩ := restamps_of_setFields obj hyoung hnode hF hknown hfields
    exact ⟨hrestamps.saved hid, hid ▸ stampedAt_saved env c₁ node₁, hyoung₁.saved hnode₁⟩
  | .string s, _, hleaf => exact hleaf rfl
  | .null, _, hleaf => exact hleaf rfl
  | .bool _, h, _ | .number _ _, h, _ | .array _, h, _ => cases h

theorem restamps_of_setFields (obj : List (String × Json)) {ok : Bool} {c c' : Contract}
    {node node' : Node} {F : Forest String NodeValue} (hyoung : c.Young env.blockHeight)
    (hnode : node.Young env.blockHeight) (hF : Reads F c node) (hknown : KnownIn F c)
    (h : Contract.setFields env c node obj ok W = .ok (c', node')) :
    node'.nodeId = node.nodeId ∧ Restamps env node.nodeId c c' ∧ c'.Young env.blockHeight ∧
      node'.Young env.blockHeight := by
  match obj, h with
  | [], h =>
    cases h
    exact ⟨rfl, .refl env _ c, hyoung, hnode⟩
  | (key, value) :: obj, h =>
    obtain ⟨hvalid, c₁, node₁, hfield, h⟩ := setFields_cons h
    have hplain : PlainKey key := isSpecialKey_of_isKeyValid hvalid
    have hfirst : Restamps env node.nodeId c c₁ ∧ c₁.Young env.blockHeight ∧
        node₁.Young env.blockHeight ∧ ∃ G, WroteFields F c node ok W (fun _ => True) c₁ node₁ G := by
      cases hfield with
      | leaf hok hv hold =>
        exact ⟨.refl env _ c, hyoung, hnode.insertChild (young_of_entryOf hv), _,
          .of_leaf hF hok hplain (Node.target_of_entryOf hv) hold⟩
      | @into id child _ hentry hchild hset =>
        obtain ⟨hid, -, hreads⟩ := hF.of_stored hentry hchild
        obtain ⟨G, hG⟩ := recursiveSet_writes (L := fun _ => True) value (fun _ _ => trivial) hreads hset
        have hget := internalUnwrapNode_eq_ok_iff.mp hchild
        obtain ⟨hrestamps, hstamped, hyoung₁⟩ :=
          restamps_of_recursiveSet value hyoung (hyoung id child hget).2 hreads hknown hset
        have hentry' : F.entry node.nodeId key = some (.node child.nodeId) := by
          rw [hF.entry, hid]
          exact hentry
        exact ⟨hrestamps.of_child hstamped hF.grown hknown hentry', hyoung₁, hnode, G,
          .of_into hF hentry hchild hG⟩
      | @fresh child _ hok hleaf hkey hcount hchild hset =>
        obtain ⟨hid, hreads⟩ := hF.of_new hchild
        obtain ⟨G, hG⟩ := recursiveSet_writes (L := fun _ => True) value (fun _ _ => trivial) hreads hset
        have hlt : node.nodeId < F.count := hF.count ▸ hF.lt_count
        have hold : F.Free node.nodeId key := fun u hu =>
          (Node.new_eq_ok.mp hchild).1 u (hF.entry ▸ hu)
        have hknown' : KnownIn (F.link node.nodeId key (.node c.nodeCount) child.children.get)
            { c with nodeCount := c.nodeCount + 1 } := fun m k t hentry =>
          hF.grown.link_entry_of_target hold m k _ t (hknown m k t hentry) rfl
        have hentry : (F.link node.nodeId key (.node c.nodeCount) child.children.get).entry
            node.nodeId key = some (.node child.nodeId) := by
          rw [hid]
          simp [Forest.link, hlt.ne]
        obtain ⟨hrestamps, hstamped, hyoung₁⟩ :=
          restamps_of_recursiveSet value (c := { c with nodeCount := c.nodeCount + 1 }) hyoung
            (hnode.of_new hchild) hreads hknown' hset
        refine ⟨hrestamps.of_child hstamped hreads.grown hknown' hentry, hyoung₁,
          hnode.insertChild ?_, G, .of_fresh hF hok ⟨hplain, trivial⟩ hchild hG⟩
        rintro b ⟨⟩
    obtain ⟨hrestamps, hyoung₁, hnode₁, G, hG⟩ := hfirst
    obtain ⟨hid, hrestamps', hyoung', hnode'⟩ :=
      restamps_of_setFields obj hyoung₁ hnode₁ hG.reads (hG.known hF hknown) h
    rw [hG.nodeId] at hid hrestamps'
    exact ⟨hid, hrestamps.trans hrestamps', hyoung', hnode'⟩

end

/-! ## Granting keys -/

theorem KnownIn.saved (hF : InMemory F c node) : KnownIn F (c.internalSetNode env node) := by
  intro m k t hentry
  rwa [hF.saved] at hentry

/-- The node below one that is saved is written, and the one above is saved already. -/
theorem Restamps.of_walked {node₁ : Node} (h : Restamps env t (c.internalSetNode env node₁) c')
    (hstamped : StampedAt env t c') (hF : F.Grown)
    (hknown : KnownIn F (c.internalSetNode env node₁)) (hpos : 0 < node₁.nodeId)
    (hentry : F.entry node₁.nodeId key = some (.node t)) :
    Restamps env node₁.nodeId c c' ∧ StampedAt env node₁.nodeId c' := by
  have hlt : node₁.nodeId < t := hF.lt_target _ _ _ _ hentry rfl
  constructor
  · intro m node hm hne hget
    refine (h.of_child hstamped hF hknown hentry m node hm hne hget).imp_right ?_
    rintro ⟨hget', hsame⟩
    rw [internalGetNode_internalSetNode, if_neg hne] at hget'
    refine ⟨hget', fun k u hu hu' => ?_⟩
    rw [hsame k u hu hu', internalGetNode_internalSetNode, if_neg hu']
  · intro node hget
    rcases h _ node hpos hlt.ne hget with hheight | ⟨hget', -⟩
    · exact hheight
    · exact stampedAt_saved env c node₁ node hget'

/-- **Walking down a path** saves every node on the way at the height of the block. -/
theorem restamps_of_walk {path : List String} (hyoung : c.Young env.blockHeight)
    (hnode : node.Young env.blockHeight) (hF : InMemory F c node)
    (h : Contract.walk env c node path = .ok (c', node')) :
    Restamps env node.nodeId c (c'.internalSetNode env node') ∧
      StampedAt env node.nodeId (c'.internalSetNode env node') ∧
      (c'.internalSetNode env node').Young env.blockHeight := by
  induction path generalizing c node F with
  | nil =>
    cases h
    exact ⟨(Restamps.refl env _ _).saved rfl, stampedAt_saved env _ _, hyoung.saved hnode⟩
  | cons key path ih =>
    simp only [Contract.walk, assertKeyValid, bind_eq_ok, ensure_eq_ok] at h
    obtain ⟨_, -, h⟩ := h
    have hfresh : ∀ child, Node.new env c.nodeCount (node.children.get key) = .ok child →
        Contract.walk env (({ c with nodeCount := c.nodeCount + 1 } : Contract).internalSetNode env
          (node.insertChild key (.node c.nodeCount))) child path = .ok (c', node') →
        Restamps env node.nodeId c (c'.internalSetNode env node') ∧
          StampedAt env node.nodeId (c'.internalSetNode env node') ∧
          (c'.internalSetNode env node').Young env.blockHeight := by
      intro child hchild h
      obtain ⟨hid, hmemory⟩ := hF.of_new hchild
      have hlt : node.nodeId < F.count := hF.count ▸ hF.lt_count
      have hlink : (node.insertChild key (.node c.nodeCount)).Young env.blockHeight :=
        hnode.insertChild (by rintro b ⟨⟩)
      obtain ⟨hrestamps, hstamped, hyoung'⟩ := ih
        (Contract.Young.saved (c := { c with nodeCount := c.nodeCount + 1 }) hyoung hlink)
        (hnode.of_new hchild) hmemory h
      have hentry : (F.link node.nodeId key (.node c.nodeCount) child.children.get).entry
          node.nodeId key = some (.node child.nodeId) := by
        rw [hid]
        simp [Forest.link, hlt.ne]
      have hknown : KnownIn (F.link node.nodeId key (.node c.nodeCount) child.children.get)
          (({ c with nodeCount := c.nodeCount + 1 } : Contract).internalSetNode env
            (node.insertChild key (.node c.nodeCount))) := by
        intro m k t ht
        by_cases hm : m = child.nodeId
        · have hne : c.nodeCount ≠ node.nodeId := hF.lt_count.ne'
          have hnone : c.forest.entry c.nodeCount k = none := by
            rw [← hF.other _ hne]
            exact hF.grown.fresh _ k hF.count.le
          rw [hm, hid, Contract.forest_internalSetNode_of_ne (by exact hne)] at ht
          cases hnone.symm.trans ht
        · rw [hmemory.other m hm]
          exact ht
      obtain ⟨hrestamps', hstamped'⟩ := Restamps.of_walked hrestamps hstamped hmemory.grown hknown
        hF.pos hentry
      exact ⟨hrestamps', hstamped', hyoung'⟩
    split at h
    · next hnone =>
      simp only [bind_eq_ok] at h
      obtain ⟨⟨c₁, i⟩, hcreate, child, hchild, h⟩ := h
      obtain ⟨-, rfl, rfl⟩ := createNodeId_eq_ok.mp hcreate
      exact hfresh child (hnone ▸ hchild) h
    · next i hentry =>
      simp only [bind_eq_ok] at h
      obtain ⟨child, hchild, h⟩ := h
      obtain ⟨hid, -, hmemory⟩ := hF.of_stored env hentry hchild
      have hget := internalUnwrapNode_eq_ok_iff.mp hchild
      obtain ⟨hrestamps, hstamped, hyoung'⟩ :=
        ih (hyoung.saved hnode) (hyoung _ child hget).2 hmemory h
      have hentry' : F.entry node.nodeId key = some (.node child.nodeId) := by
        rw [hF.entry, hid]
        exact hentry
      obtain ⟨hrestamps', hstamped'⟩ := Restamps.of_walked hrestamps hstamped hF.grown (.saved hF)
        hF.pos hentry'
      exact ⟨hrestamps', hstamped', hyoung'⟩
    · next old _ hentry =>
      simp only [bind_eq_ok, ensure_eq_ok] at h
      obtain ⟨_, -, ⟨c₁, i⟩, hcreate, child, hchild, h⟩ := h
      obtain ⟨-, rfl, rfl⟩ := createNodeId_eq_ok.mp hcreate
      exact hfresh child (hentry ▸ hchild) h

end Restamps

/-! ## Steps -/

/-- The values of every node, and the nodes that it leads to, are up to its own height. -/
structure Dated (c : Contract) (height : ℕ) : Prop where
  young : c.Young height
  value : ∀ m node, c.internalGetNode m = some node → node.Young node.blockHeight
  child : ∀ m node k t child, c.internalGetNode m = some node →
    node.children.get k = some (.node t) → c.internalGetNode t = some child →
    child.blockHeight ≤ node.blockHeight

section Steps

variable {host : Host} {env : Env} {c c' : Contract} {node : Node} {n m : NodeId} {id : AccountId}
  {account account' : Account} {transfers : List Transfer} {height : ℕ}

theorem Dated.mono {height' : ℕ} (h : Dated c height) (hle : height ≤ height') : Dated c height' := by
  refine ⟨fun m node hget => ?_, h.value, h.child⟩
  obtain ⟨hheight, hvalues⟩ := h.young m node hget
  exact ⟨hheight.trans hle, fun k v b hv hb => (hvalues k v b hv hb).trans hle⟩

theorem Dated.of_nodes (h : Dated c height) (hnodes : c'.nodes = c.nodes) : Dated c' height := by
  have hget : c'.internalGetNode = c.internalGetNode := by
    funext m
    rw [Contract.internalGetNode, Contract.internalGetNode, hnodes]
  refine ⟨?_, ?_, ?_⟩
  · rw [Contract.Young, hget]
    exact h.young
  · rw [hget]
    exact h.value
  · rw [hget]
    exact h.child

/-- **Writing below the node of an account** keeps the nodes dated. -/
theorem Dated.restamps (h : Dated c height) (hsound : c.Sound) (hsound' : c'.Sound)
    (hn : c.rootNode.children.get id = some (.node n)) (hrestamps : Restamps env n c c')
    (hstamped : StampedAt env n c') (hyoung : c'.Young env.blockHeight) :
    Dated c' env.blockHeight := by
  -- A node is saved in this block, or leads to what it led to before.
  have hcases : ∀ m node, c'.internalGetNode m = some node → node.blockHeight = env.blockHeight ∨
      c.internalGetNode m = some node ∧ ∀ k t, node.children.get k = some (.node t) →
        (c'.internalGetNode t).map (·.blockHeight) = (c.internalGetNode t).map (·.blockHeight) := by
    intro m node hget
    by_cases hm : m = n
    · subst hm
      exact .inl (hstamped node hget)
    · have hpos := Nat.pos_of_ne_zero (hsound'.entry_of_stored hget).1
      refine (hrestamps m node hpos hm hget).imp_right fun ⟨hget', hsame⟩ => ⟨hget', ?_⟩
      intro k t ht
      refine hsame k t ht ?_
      rintro rfl
      have hentry := ((hsound.entry_of_stored hget').2.2 k).trans ht
      have hroot : c.forest.entry 0 id = some (.node t) := hn
      exact hpos.ne' (hsound.grown.unique _ _ _ _ _ _ _ hentry rfl hroot rfl).1
  refine ⟨hyoung, ?_, ?_⟩
  · intro m node hget
    rcases hcases m node hget with hheight | ⟨hget', -⟩
    · exact hheight ▸ (hyoung m node hget).2
    · exact h.value m node hget'
  · intro m node k t child hget hentry hchild
    rcases hcases m node hget with hheight | ⟨hget', hsame⟩
    · exact hheight ▸ (hyoung t child hchild).1
    · have hheight := hsame k t hentry
      rw [hchild, Option.map_some, eq_comm, Option.map_eq_some_iff] at hheight
      obtain ⟨child', hchild', heq⟩ := hheight
      exact heq ▸ h.child m node k t child' hget' hentry hchild'

/-- **A call about storage** keeps the nodes dated. -/
theorem Registers.dated (hregisters : Registers env c c') (hsound : c.Sound)
    (h : Dated c env.blockHeight) : Dated c' env.blockHeight := by
  cases hregisters with
  | same hnodes => exact h.of_nodes hnodes
  | opened _ _ hnodes =>
    have hget : ∀ m node, c'.internalGetNode m = some node →
        m = c.nodeCount ∧ node = { nodeId := m, blockHeight := env.blockHeight, children := .empty } ∨
          c.internalGetNode m = some node := by
      intro m node hget
      rw [Contract.internalGetNode, hnodes] at hget
      by_cases hm : m = c.nodeCount
      · subst hm
        rw [AList.lookup_insert] at hget
        cases hget
        exact .inl ⟨rfl, rfl⟩
      · rw [AList.lookup_insert_ne hm] at hget
        exact .inr hget
    have hempty : ∀ m : NodeId, Node.Young
        { nodeId := m, blockHeight := env.blockHeight, children := .empty } env.blockHeight := by
      rintro m k v b ⟨⟩
    refine ⟨?_, ?_, ?_⟩
    · intro m node hnode
      rcases hget m node hnode with ⟨-, rfl⟩ | hnode'
      · exact ⟨le_rfl, hempty m⟩
      · exact h.young m node hnode'
    · intro m node hnode
      rcases hget m node hnode with ⟨-, rfl⟩ | hnode'
      · exact hempty m
      · exact h.value m node hnode'
    · intro m node k t child hnode hentry hchild
      rcases hget m node hnode with ⟨-, rfl⟩ | hnode'
      · cases hentry
      · rcases hget t child hchild with ⟨rfl, rfl⟩ | hchild'
        · have hlt := hsound.grown.target_lt m k _ _
            (((hsound.entry_of_stored hnode').2.2 k).trans hentry) rfl
          exact absurd hlt (lt_irrefl c.nodeCount)
        · exact h.child m node k t child hnode' hentry hchild'

/-- The edges of a contract are in its forest. -/
theorem knownIn_self (c : Contract) : KnownIn c.forest c := fun _ _ _ => id

theorem dated_of_setAccount {value : Json} {deposit : ℕ} (hsound : c.Sound)
    (hdated : Dated c env.blockHeight)
    (h : c.setAccount host env id value deposit = .ok (c', transfers)) :
    Dated c' env.blockHeight := by
  simp only [Contract.setAccount, bind_eq_ok, pure_eq_ok, Prod.mk.injEq] at h
  obtain ⟨⟨c₁, transfers₁, account⟩, hcreate, node, hnode, t₁, -, c₂, hset, t₂, -,
    ⟨c₃, existed⟩, hsave, rfl, -⟩ := h
  obtain ⟨-, _, _, n, a, balance, hmoves, -, hn, ha, -, rfl⟩ :=
    moves_of_internalUnwrapAccountOrCreate (fun _ => True) (fun _ => True) hsound hcreate
  have hsound₁ := hmoves.sound hsound
  have hdated₁ := (registers_of_internalUnwrapAccountOrCreate hsound hcreate).dated hsound hdated
  have hmem : n ∈ c₁.accounts := mem_accounts_of_lookup ha
  have hsound₂ := (edits_of_recursiveSet (L := fun _ => True) hsound₁ hmem hnode
    (fun _ _ => trivial) hset).sound hsound₁ hmem
  obtain ⟨hid, hreads, -⟩ := hsound₁.reads (hsound₁.account_lt_count hmem).1 hnode
  have hyoung := (hdated₁.young _ node (internalUnwrapNode_eq_ok_iff.mp hnode)).2
  obtain ⟨hrestamps, hstamped, hyoung₂⟩ :=
    restamps_of_recursiveSet value hdated₁.young hyoung hreads (knownIn_self c₁) hset
  subst hid
  obtain ⟨-, -, a', hsaves⟩ := internalSetAccount_saves hsave
  exact (hdated₁.restamps hsound₁ hsound₂ hn hrestamps hstamped hyoung₂).of_nodes hsaves.nodes_eq

/-- **Writing data** keeps the nodes dated. -/
theorem dated_of_setAccounts {options : SetOptions} {data : List (String × Json)} {deposit rest : ℕ}
    (hsound : c.Sound) (hdated : Dated c env.blockHeight)
    (h : Contract.setAccounts host env options c data deposit = .ok (c', transfers, rest)) :
    Dated c' env.blockHeight := by
  induction data generalizing c deposit transfers with
  | nil =>
    cases h
    exact hdated
  | cons entry data ih =>
    obtain ⟨key, value⟩ := entry
    obtain ⟨c₁, created, c₂, refunded, transfers₃, hset, hrefund, hrest, -⟩ := setAccounts_cons h
    have hsound₁ := sound_of_setAccount hsound hset
    refine ih (sound_of_refundUnused hsound₁ hrefund) ?_ hrest
    refine (dated_of_setAccount hsound hdated hset).of_nodes ?_
    rw [frame_of_refundUnused hrefund]

/-- **Granting keys** keeps the nodes dated. -/
theorem dated_of_grantKeys {keys : List String} {nodeIds nodeIds' : Finset NodeId}
    (hsound : c.Sound) (hn : c.rootNode.children.get id = some (.node account.nodeId))
    (hmem : account.nodeId ∈ c.accounts) (hdated : Dated c env.blockHeight)
    (h : Contract.grantKeys host env id c account keys nodeIds = .ok (c', account', nodeIds')) :
    Dated c' env.blockHeight := by
  induction keys generalizing c account nodeIds with
  | nil =>
    cases h
    exact hdated
  | cons key keys ih =>
    simp only [Contract.grantKeys, bind_eq_ok] at h
    obtain ⟨⟨c₁, account₁, i⟩, hkey, h⟩ := h
    obtain ⟨hedits, -, t, haccount, -⟩ :=
      edits_of_grantKey (L := fun _ => True) hsound hmem (fun _ _ => trivial) hkey
    have hsound₁ := hedits.sound hsound hmem
    simp only [Contract.grantKey, bind_eq_ok, ensure_eq_ok, pure_eq_ok, Prod.mk.injEq] at hkey
    obtain ⟨t₁, -, _, -, _, -, node, hnode, ⟨c₂, node₁⟩, hwalk, t₂, -, rfl, -, -⟩ := hkey
    obtain ⟨hid, -, hmemory⟩ := hsound.reads (hsound.account_lt_count hmem).1 hnode
    have hyoung := (hdated.young _ node (internalUnwrapNode_eq_ok_iff.mp hnode)).2
    obtain ⟨hrestamps, hstamped, hyoung₁⟩ := restamps_of_walk hdated.young hyoung hmemory hwalk
    rw [hid] at hrestamps hstamped
    refine ih hsound₁ ?_ ?_ (hdated.restamps hsound hsound₁ hn hrestamps hstamped hyoung₁) h
    · rw [hedits.frame, haccount]
      exact hn
    · rw [hedits.frame, haccount]
      exact hmem

/-- **A step** keeps the nodes dated. -/
theorem dated_of_step {call : Call} (hsound : c.Sound) (hdated : Dated c call.env.blockHeight)
    (h : (system host).step c call = .ok c') : Dated c' call.env.blockHeight := by
  obtain ⟨env, method⟩ := call
  obtain ⟨transfers, hcall⟩ := step_eq_ok.mp h
  by_cases hstorage : method.IsStorage
  · exact (registers_of_call hstorage hcall).dated hsound hdated
  · simp only [Contract.call, bind_eq_ok, ensure_eq_ok] at hcall
    obtain ⟨_, -, _, -, hcall⟩ := hcall
    cases method with
    | set data options =>
      simp only [Contract.set, bind_eq_ok, ensure_eq_ok, pure_eq_ok, Prod.mk.injEq] at hcall
      obtain ⟨_, -, obj, -, ⟨c₂, transfers₂, rest⟩, hset, _, -, rfl, -⟩ := hcall
      exact dated_of_setAccounts hsound hdated hset
    | grantWritePermission predecessorId publicKey keys =>
      simp only [Contract.grantWritePermission, bind_eq_ok, ensure_eq_ok, pure_eq_ok,
        Prod.mk.injEq] at hcall
      obtain ⟨_, -, _, -, key, -, ⟨c₁, transfers₁, account⟩, hcreate, ⟨c₂, account₂, nodeIds⟩, hgrant,
        ⟨c₃, account₃⟩, hpermission, ⟨c₄, existed⟩, hsave, rfl, -⟩ := hcall
      obtain ⟨-, _, _, n, a, balance, hmoves, -, hn, ha, -, rfl⟩ :=
        moves_of_internalUnwrapAccountOrCreate (fun _ => True) (fun _ => True) hsound hcreate
      have hdated₁ := (registers_of_internalUnwrapAccountOrCreate hsound hcreate).dated hsound hdated
      have hdated₂ := dated_of_grantKeys (hmoves.sound hsound) hn (mem_accounts_of_lookup ha) hdated₁
        hgrant
      obtain ⟨-, -, a', hsaves⟩ := internalSetAccount_saves hsave
      exact hdated₂.of_nodes (hsaves.nodes_eq.trans (nodes_eq_of_internalSetPermission hpermission))
    | _ => exact absurd trivial hstorage

end Steps

/-! ## Runs -/

/-- The blocks of a history come in order. -/
def InOrder (history : List (Step Contract Call)) : Prop :=
  history.Pairwise fun x y => x.label.env.blockHeight ≤ y.label.env.blockHeight

instance (history : List (Step Contract Call)) : Decidable (InOrder history) :=
  inferInstanceAs (Decidable (List.Pairwise _ history))

theorem dated_new (start : Env) (height : ℕ) : Dated (.new start) height := by
  refine ⟨?_, ?_, ?_⟩
  · rintro m node ⟨⟩
  · rintro m node ⟨⟩
  · rintro m node k t child ⟨⟩

/-- **After every run** of calls in the order of blocks the nodes are dated. -/
theorem dated_run (host : Host) (start : Env) (calls : List Call)
    (h : InOrder ((system host).steps (.new start) calls)) (height : ℕ)
    (hheight : ∀ x ∈ (system host).steps (.new start) calls, x.label.env.blockHeight ≤ height) :
    Dated ((system host).run (.new start) calls) height := by
  refine (Machine.run_induction (M := system host) (P := fun hist c => c.Sound ∧ (InOrder hist →
    ∀ height, (∀ x ∈ hist, x.label.env.blockHeight ≤ height) → Dated c height)) ?_ ?_ calls).2 h height
      hheight
  · exact ⟨Contract.sound_new start, fun _ height _ => dated_new start height⟩
  · rintro hist c call c' ⟨hsound, ih⟩ hstep
    refine ⟨sound_step hsound hstep, fun horder height hheight => ?_⟩
    obtain ⟨hbefore, -, hlast⟩ := List.pairwise_append.mp horder
    have hdated := ih hbefore call.env.blockHeight
      fun x hx => hlast x hx _ (List.mem_singleton.mpr rfl)
    exact (dated_of_step hsound hdated hstep).mono (hheight ⟨c, call, c'⟩ (by simp))

/-- What lies below a node is up to its height. -/
theorem Dated.of_below {c : Contract} {height : ℕ} {n m : NodeId} {node below : Node}
    (h : Dated c height) (hsound : c.Sound) (hnode : c.internalGetNode n = some node)
    (hbelow : c.internalGetNode m = some below) (hle : c.forest.Below n m) :
    below.blockHeight ≤ node.blockHeight := by
  induction hle using Relation.ReflTransGen.head_induction_on generalizing node with
  | refl =>
    obtain rfl := Option.some.inj (hnode.symm.trans hbelow)
    exact le_rfl
  | head hchild _ ih =>
    obtain ⟨k, v, hentry, htarget⟩ := hchild
    obtain rfl := target_eq_some.mp htarget
    have hchild := ((hsound.entry_of_stored hnode).2.2 k).symm.trans hentry
    obtain ⟨child, hget⟩ := internalUnwrapNode_of_mem (hsound.mem_of_entry hentry)
    rw [internalUnwrapNode_eq_ok_iff] at hget
    exact (ih hget).trans (h.child _ node k _ child hnode hchild hget)

/-- **Nothing below a node is newer than the node.** After every run of calls in the order of blocks,
the height of a node is at least that of every node and of every value below it, removed values
included. The root aside, which is saved for new accounts only, an unchanged height thus stands for a
tree in which nothing is newer. -/
theorem below_not_newer (host : Host) (start : Env) (calls : List Call)
    (h : InOrder ((system host).steps (.new start) calls)) (n m : NodeId) (node below : Node)
    (hnode : ((system host).run (.new start) calls).internalGetNode n = some node)
    (hbelow : ((system host).run (.new start) calls).internalGetNode m = some below)
    (hle : ((system host).run (.new start) calls).forest.Below n m) :
    below.blockHeight ≤ node.blockHeight ∧ below.Young node.blockHeight := by
  have hdated := dated_run host start calls h _ fun x hx =>
    List.le_sum_of_mem (List.mem_map_of_mem (f := fun x => x.label.env.blockHeight) hx)
  have hheight := hdated.of_below (sound_run host start calls) hnode hbelow hle
  exact ⟨hheight, fun k v b hv hb => (hdated.value m below hbelow k v b hv hb).trans hheight⟩

/-! ## Writing in two blocks -/

/-- An account writes below a node in one block, and beside it in the next one. -/
def sampleBlocks : List Call :=
  [sampleLive,
    { env := { sampleEnv "alice" (10 ^ 23) sampleDeposit_le with
        blockHeight := 1
        attachedDeposit_le := sampleDeposit_le }
      method := .set (.object [("alice", .object [("app", .object [("x", .string "y")])])]) none },
    { env := { sampleEnv "alice" 0 (Nat.zero_le _) with
        blockHeight := 2
        attachedDeposit_le := Nat.zero_le _ }
      method := .set (.object [("alice", .object [("name", .string "Alice")])]) none }]

/-- The contract after the blocks. -/
def sampleDated : Contract :=
  (system sampleHost).run (.new (sampleEnv "social" 0 (Nat.zero_le _))) sampleBlocks

theorem below_not_newer_sampleBlocks :
    ∃ node below, sampleDated.internalGetNode 1 = some node ∧
      sampleDated.internalGetNode 2 = some below ∧ below.blockHeight ≤ node.blockHeight ∧
      below.Young node.blockHeight := by
  have hnode : (sampleDated.internalGetNode 1).isSome = true := by decide +kernel
  have hbelow : (sampleDated.internalGetNode 2).isSome = true := by decide +kernel
  have hentry : sampleDated.forest.entry 1 "app" = some (.node 2) := by decide +kernel
  obtain ⟨node, hnode⟩ := Option.isSome_iff_exists.mp hnode
  obtain ⟨below, hbelow⟩ := Option.isSome_iff_exists.mp hbelow
  have hle : sampleDated.forest.Below 1 2 := .single ⟨"app", .node 2, hentry, rfl⟩
  refine ⟨node, below, hnode, hbelow, ?_⟩
  exact below_not_newer sampleHost (sampleEnv "social" 0 (Nat.zero_le _)) sampleBlocks
    (by decide +kernel) 1 2 node below hnode hbelow hle

end UncContracts.Social
