import UncContracts.Social.Authorization
import UncContracts.Social.NodeGraph

/-!
# The heights of nodes

Writing below a node saves every node on the way, and a node is saved with the height of the block. A
caller who may not write changes no entry, but the nodes that the data visits are saved all the same.

## Main definitions

* `Visits`: the nodes that a write visits
* `Stamps`: nodes are saved at the height of the block, and nothing else changes
* `Apart`: nodes that no other node leads to
* `Touched`: what data does to the tree of an account that lets its caller write nowhere

## Main results

* `stamps_of_recursiveSet`: a write without permission saves the nodes that it visits
* `kept_of_recursiveSet`: a write leaves the nodes that are apart from it
* `touched_of_setAccounts`: what data does to the tree of such an account
-/

namespace UncContracts.Social

open Foundation HasTarget

/-- The node when it is saved. -/
def Node.stamped (env : Env) (node : Node) : Node := { node with blockHeight := env.blockHeight }

@[simp] theorem Node.stamped_stamped (env : Env) (node : Node) :
    (node.stamped env).stamped env = node.stamped env := rfl

/-- A write of a value at a node visits a node. -/
inductive Visits (F : Forest String NodeValue) : NodeId → Json → NodeId → Prop
  | here {n : NodeId} {value : Json} : Visits F n value n
  | step {n t m : NodeId} {obj : List (String × Json)} {key : String} {value : Json}
    (hmem : (key, value) ∈ obj) (hentry : F.entry n key = some (.node t)) (h : Visits F t value m) :
    Visits F n (.object obj) m

/-- Some nodes are saved at the height of the block, and nothing else changes. -/
structure Stamps (env : Env) (V : NodeId → Prop) (c c' : Contract) : Prop where
  frame : c' = { c with nodes := c'.nodes }
  visited : ∀ m, V m → c'.internalGetNode m = (c.internalGetNode m).map (·.stamped env)
  kept : ∀ m, ¬ V m → c'.internalGetNode m = c.internalGetNode m

section Stamped

variable {env : Env} {c c' c'' : Contract} {V V' : NodeId → Prop} {node node' : Node} {n m : NodeId}

theorem internalGetNode_internalSetNode (env : Env) (c : Contract) (node : Node) (m : NodeId) :
    (c.internalSetNode env node).internalGetNode m =
      if m = node.nodeId then some (node.stamped env) else c.internalGetNode m := by
  unfold Contract.internalGetNode
  split
  · next heq =>
    rw [heq, lookup_internalSetNode_self]
    rfl
  · next hne => rw [lookup_internalSetNode_of_ne hne]

theorem internalUnwrapNode_eq_ok_iff : c.internalUnwrapNode n = .ok node ↔
    c.internalGetNode n = some node := by
  rw [Contract.internalUnwrapNode, expect_eq_ok]

theorem nodeId_of_internalUnwrapNode (h : c.internalUnwrapNode n = .ok node) : node.nodeId = n := by
  obtain ⟨stored, -, rfl⟩ := internalUnwrapNode_eq_ok.mp h
  rfl

/-- The entries of a stored node. -/
theorem forest_entry_eq (hn : n ≠ 0) (c : Contract) :
    c.forest.entry n = fun k => (c.internalGetNode n).bind fun node => node.children.get k := by
  funext k
  simp only [Contract.forest, if_neg hn, Contract.internalGetNode]
  cases c.nodes.lookup n <;> rfl

/-- A node that is saved has the entries that it had. -/
theorem forest_entry_of_stamped (hn : n ≠ 0)
    (h : c'.internalGetNode n = (c.internalGetNode n).map (·.stamped env)) :
    c'.forest.entry n = c.forest.entry n := by
  rw [forest_entry_eq hn, forest_entry_eq hn, h]
  cases c.internalGetNode n <;> rfl

theorem forest_entry_of_kept (hn : n ≠ 0) (h : c'.internalGetNode n = c.internalGetNode n) :
    c'.forest.entry n = c.forest.entry n := by
  rw [forest_entry_eq hn, forest_entry_eq hn, h]

namespace Stamps

theorem refl (env : Env) (c : Contract) : Stamps env (fun _ => False) c c :=
  ⟨rfl, fun _ h => h.elim, fun _ _ => rfl⟩

theorem trans (h : Stamps env V c c') (h' : Stamps env V' c' c'') :
    Stamps env (fun m => V m ∨ V' m) c c'' := by
  refine ⟨?_, fun m hm => ?_, fun m hm => ?_⟩
  · rw [h'.frame, h.frame]
  · by_cases hlast : V' m
    · rw [h'.visited m hlast]
      by_cases hfirst : V m
      · rw [h.visited m hfirst, Option.map_map]
        rfl
      · rw [h.kept m hfirst]
    · rw [h'.kept m hlast, h.visited m (hm.resolve_right hlast)]
  · rw [not_or] at hm
    rw [h'.kept m hm.2, h.kept m hm.1]

theorem congr (h : Stamps env V c c') (hV : ∀ m, V m ↔ V' m) : Stamps env V' c c' :=
  (funext fun m => propext (hV m) : V = V') ▸ h

/-- The entries stay. -/
theorem forest_eq (h : Stamps env V c c') : c'.forest = c.forest := by
  have hcount : c'.forest.count = c.forest.count := by
    rw [h.frame]
    rfl
  refine Forest.ext ?_ hcount
  funext m
  by_cases hm : m = 0
  · subst hm
    funext k
    simp only [Contract.forest, if_true]
    rw [h.frame]
  · by_cases hV : V m
    · exact forest_entry_of_stamped hm (h.visited m hV)
    · exact forest_entry_of_kept hm (h.kept m hV)

end Stamps

/-! ## Without permission -/

mutual

/-- **A write without permission** saves the nodes that it visits, and changes nothing else. -/
theorem stamps_of_recursiveSet (value : Json) {c c' : Contract} {node : Node} {n : NodeId}
    (hgrown : c.forest.Grown) (hpos : 0 < n) (hnode : c.internalUnwrapNode n = .ok node)
    (h : Contract.recursiveSet env c node value false ∅ = .ok c') :
    Stamps env (Visits c.forest n value) c c' := by
  have hget := internalUnwrapNode_eq_ok_iff.mp hnode
  have hid := nodeId_of_internalUnwrapNode hnode
  match value, h with
  | .object obj, h =>
    obtain ⟨c₁, node₁, hfields, rfl⟩ := recursiveSet_object h
    have hentries : ∀ k, c.forest.entry n k = node.children.get k :=
      Contract.holds_of_internalUnwrapNode hpos.ne' hnode
    obtain ⟨rfl, hstamps⟩ := stamps_of_setFields obj hgrown hentries (by simpa using hfields)
    refine ⟨?_, fun m hm => ?_, fun m hm => ?_⟩
    · rw [Contract.internalSetNode, hstamps.frame]
    · rw [internalGetNode_internalSetNode, hid]
      split
      · next heq =>
        rw [heq, hget]
        rfl
      · next hne =>
        refine hstamps.visited m ?_
        cases hm with
        | here => exact absurd rfl hne
        | step hmem hentry hvisits => exact ⟨_, _, _, hmem, hentry, hvisits⟩
    · rw [internalGetNode_internalSetNode, hid, if_neg]
      · refine hstamps.kept m ?_
        rintro ⟨key, value, t, hmem, hentry, hvisits⟩
        exact hm (.step hmem hentry hvisits)
      · rintro rfl
        exact hm .here
  | .string s, h =>
    obtain ⟨hok, -⟩ := recursiveSet_leaf rfl h
    simp at hok
  | .null, h =>
    obtain ⟨hok, -⟩ := recursiveSet_leaf rfl h
    simp at hok
  | .bool _, h | .number _ _, h | .array _, h => cases h

theorem stamps_of_setFields (obj : List (String × Json)) {c c' : Contract} {node node' : Node}
    {n : NodeId} (hgrown : c.forest.Grown) (hentries : ∀ k, c.forest.entry n k = node.children.get k)
    (h : Contract.setFields env c node obj false ∅ = .ok (c', node')) :
    node' = node ∧ Stamps env (fun m => ∃ key value t, (key, value) ∈ obj ∧
      c.forest.entry n key = some (.node t) ∧ Visits c.forest t value m) c c' := by
  match obj, h with
  | [], h =>
    cases h
    refine ⟨rfl, (Stamps.refl env c).congr fun m => iff_of_false id ?_⟩
    rintro ⟨_, _, _, hmem, -⟩
    cases hmem
  | (key, value) :: obj, h =>
    obtain ⟨-, c₁, node₁, hfield, h⟩ := setFields_cons h
    cases hfield with
    | leaf hok hv hfree => cases hok
    | fresh hok hleaf hkey hcount hchild hset => cases hok
    | @into t child c₁ hentry hchild hset =>
      have hentry' : c.forest.entry n key = some (.node t) := (hentries key).trans hentry
      have hpos : 0 < t := (Nat.zero_le n).trans_lt (hgrown.lt_target n key _ t hentry' rfl)
      -- The first field keeps the entries, so that the others visit the same nodes.
      have hfirst := stamps_of_recursiveSet value hgrown hpos hchild hset
      have hforest := hfirst.forest_eq
      obtain ⟨rfl, hrest⟩ := stamps_of_setFields obj (hforest.symm ▸ hgrown)
        (fun k => hforest.symm ▸ hentries k) h
      refine ⟨rfl, (hfirst.trans hrest).congr fun m => ?_⟩
      rw [hforest]
      constructor
      · rintro (hvisits | ⟨key', value', t', hmem, hentry, hvisits⟩)
        · exact ⟨key, value, t, List.mem_cons_self .., hentry', hvisits⟩
        · exact ⟨key', value', t', List.mem_cons_of_mem _ hmem, hentry, hvisits⟩
      · rintro ⟨key', value', t', hmem, hentry, hvisits⟩
        rcases List.mem_cons.mp hmem with heq | hmem
        · cases heq
          cases hentry.symm.trans hentry'
          exact .inl hvisits
        · exact .inr ⟨key', value', t', hmem, hentry, hvisits⟩

end

end Stamped

/-! ## Nodes apart -/

/-- A node in memory leads to none of some nodes. -/
structure Node.Apart (S : NodeId → Prop) (node : Node) : Prop where
  not_mem : ¬ S node.nodeId
  children : ∀ k t, node.children.get k = some (.node t) → ¬ S t

/-- The other nodes lead to none of some nodes. -/
structure Apart (S : NodeId → Prop) (c : Contract) : Prop where
  lt_count : ∀ m, S m → m < c.nodeCount
  closed : ∀ m node, ¬ S m → c.internalGetNode m = some node → node.Apart S

/-- Some nodes are kept, and the others still do not lead to them. -/
structure Keeping (S : NodeId → Prop) (c c' : Contract) : Prop where
  apart : Apart S c'
  kept : ∀ m, S m → c'.internalGetNode m = c.internalGetNode m

section Keeping

variable {env : Env} {S : NodeId → Prop} {c c' c'' : Contract} {node node' child : Node} {n : NodeId}
  {W : Finset NodeId} {v : NodeValue} {key : String}

theorem Keeping.trans (h : Keeping S c c') (h' : Keeping S c' c'') : Keeping S c c'' :=
  ⟨h'.apart, fun m hm => (h'.kept m hm).trans (h.kept m hm)⟩

theorem Node.Apart.insertChild (h : node.Apart S) (hv : ∀ t, v = .node t → ¬ S t) :
    (node.insertChild key v).Apart S := by
  refine ⟨h.not_mem, fun k t hget => ?_⟩
  rw [Node.get_insertChild] at hget
  split at hget
  · exact hv t (Option.some.inj hget)
  · exact h.children k t hget

/-- A new node leads to no node. -/
theorem Node.apart_of_new {value : Option NodeValue} (h : Node.new env n value = .ok child)
    (hn : ¬ S n) : child.Apart S := by
  refine ⟨?_, fun k t hget => ?_⟩
  · rwa [(Node.new_eq_ok.mp h).2.1]
  · rw [Node.get_of_new h] at hget
    split at hget
    · cases (Node.new_eq_ok.mp h).1 _ hget
    · cases hget

theorem Apart.createNode (h : Apart S c) : Apart S { c with nodeCount := c.nodeCount + 1 } :=
  ⟨fun m hm => (h.lt_count m hm).trans (Nat.lt_succ_self _), h.closed⟩

/-- A node that is apart is saved. -/
theorem Apart.saved (h : Apart S c) (hnode : node.Apart S) :
    Keeping S c (c.internalSetNode env node) := by
  refine ⟨⟨h.lt_count, fun m node' hm hget => ?_⟩, fun m hm => ?_⟩
  · rw [internalGetNode_internalSetNode] at hget
    split at hget
    · cases hget
      exact ⟨hnode.not_mem, hnode.children⟩
    · exact h.closed m node' hm hget
  · rw [internalGetNode_internalSetNode, if_neg]
    rintro rfl
    exact hnode.not_mem hm

mutual

/-- **A write keeps the nodes that are apart** from the ones below it. -/
theorem kept_of_recursiveSet (value : Json) {ok : Bool} {c c' : Contract} {node : Node}
    (hapart : Apart S c) (hnode : node.Apart S)
    (h : Contract.recursiveSet env c node value ok W = .ok c') : Keeping S c c' := by
  match value, h with
  | .object obj, h =>
    obtain ⟨c₁, node₁, hfields, rfl⟩ := recursiveSet_object h
    obtain ⟨hkeeping, hnode₁⟩ := kept_of_setFields obj hapart hnode hfields
    exact hkeeping.trans (hkeeping.apart.saved hnode₁)
  | .string s, h =>
    obtain ⟨-, v, hv, -, rfl⟩ := recursiveSet_leaf rfl h
    exact hapart.saved (hnode.insertChild fun t ht => absurd ht (target_eq_none.mp (Node.target_of_entryOf hv) t))
  | .null, h =>
    obtain ⟨-, v, hv, -, rfl⟩ := recursiveSet_leaf rfl h
    exact hapart.saved (hnode.insertChild fun t ht => absurd ht (target_eq_none.mp (Node.target_of_entryOf hv) t))
  | .bool _, h | .number _ _, h | .array _, h => cases h

theorem kept_of_setFields (obj : List (String × Json)) {ok : Bool} {c c' : Contract}
    {node node' : Node} (hapart : Apart S c) (hnode : node.Apart S)
    (h : Contract.setFields env c node obj ok W = .ok (c', node')) :
    Keeping S c c' ∧ node'.Apart S := by
  match obj, h with
  | [], h =>
    cases h
    exact ⟨⟨hapart, fun _ _ => rfl⟩, hnode⟩
  | (key, value) :: obj, h =>
    obtain ⟨-, c₁, node₁, hfield, h⟩ := setFields_cons h
    have hfirst : Keeping S c c₁ ∧ node₁.Apart S := by
      cases hfield with
      | leaf hok hv hfree =>
        refine ⟨⟨hapart, fun _ _ => rfl⟩, hnode.insertChild fun t ht => ?_⟩
        exact absurd ht (target_eq_none.mp (Node.target_of_entryOf hv) t)
      | into hentry hchild hset =>
        have hchild' := hapart.closed _ _ (hnode.children key _ hentry)
          (internalUnwrapNode_eq_ok_iff.mp hchild)
        exact ⟨kept_of_recursiveSet value hapart hchild' hset, hnode⟩
      | fresh hok hleaf hkey hcount hchild hset =>
        have hnew : ¬ S c.nodeCount := fun hS => Nat.lt_irrefl _ (hapart.lt_count _ hS)
        obtain ⟨hapart', hkept⟩ := kept_of_recursiveSet value hapart.createNode
          (Node.apart_of_new hchild hnew) hset
        refine ⟨⟨hapart', hkept⟩, hnode.insertChild fun t ht => ?_⟩
        cases ht
        exact hnew
    obtain ⟨hrest, hnode'⟩ := kept_of_setFields obj hfirst.1.apart hfirst.2 h
    exact ⟨hfirst.1.trans hrest, hnode'⟩

end

end Keeping

/-! ## The tree of an account -/

/-- What data does to the tree of an account and to the root: the nodes that are visited are saved at
the height of the block, as the root is when an account is opened. -/
structure Touched (env : Env) (a : AccountId) (n : NodeId) (V : NodeId → Prop) (opens : Prop)
    (c c' : Contract) : Prop where
  rootId : c'.rootNode.nodeId = c.rootNode.nodeId
  child : c'.rootNode.children.get a = c.rootNode.children.get a
  permissions : c'.permissions = c.permissions
  opened : opens → c'.rootNode.blockHeight = env.blockHeight
  notOpened : ¬ opens → c'.rootNode.blockHeight = c.rootNode.blockHeight
  visited : ∀ m, c.forest.Below n m → V m → c'.internalGetNode m = (c.internalGetNode m).map (·.stamped env)
  kept : ∀ m, c.forest.Below n m → ¬ V m → c'.internalGetNode m = c.internalGetNode m

section Trees

variable {host : Host} {env : Env} {a id : AccountId} {n m : NodeId} {V V' : NodeId → Prop}
  {opens opens' : Prop} {c c' c'' : Contract} {F G : Forest String NodeValue} {value : Json}

theorem below_of_visits (h : Visits F n value m) : F.Below n m := by
  induction h with
  | here => exact .refl F _
  | step hmem hentry h ih => exact Relation.ReflTransGen.head ⟨_, _, hentry, rfl⟩ ih

/-- What is below a node depends on the entries there. -/
theorem below_congr (hentry : ∀ m, F.Below n m → G.entry m = F.entry m) : G.Below n m ↔ F.Below n m := by
  constructor
  · intro h
    induction h with
    | refl => exact .refl F n
    | tail _ hchild ih =>
      obtain ⟨k, v, hv, htarget⟩ := hchild
      exact Relation.ReflTransGen.tail ih ⟨k, v, by rw [← hentry _ ih, hv], htarget⟩
  · intro h
    induction h with
    | refl => exact .refl G n
    | tail hm hchild ih =>
      obtain ⟨k, v, hv, htarget⟩ := hchild
      exact Relation.ReflTransGen.tail ih ⟨k, v, by rw [hentry _ hm, hv], htarget⟩

theorem visits_of_congr (hentry : ∀ m, F.Below n m → G.entry m = F.entry m) (h : Visits F n value m) :
    Visits G n value m := by
  induction h with
  | here => exact .here
  | @step n t m obj key value hmem hentry' h ih =>
    refine .step hmem ?_ (ih fun m hm => hentry m (Relation.ReflTransGen.head ⟨_, _, hentry', rfl⟩ hm))
    rw [hentry n (.refl F n), hentry']

/-- What a write visits depends on the entries below its node. -/
theorem visits_congr (hentry : ∀ m, F.Below n m → G.entry m = F.entry m) :
    Visits G n value m ↔ Visits F n value m := by
  refine ⟨visits_of_congr fun m hm => ?_, visits_of_congr hentry⟩
  exact (hentry m ((below_congr hentry).mp hm)).symm

namespace Touched

theorem refl (env : Env) (a : AccountId) (n : NodeId) (c : Contract) :
    Touched env a n (fun _ => False) False c c :=
  ⟨rfl, rfl, rfl, fun h => h.elim, fun _ => rfl, fun _ _ h => h.elim, fun _ _ _ => rfl⟩

theorem congr (h : Touched env a n V opens c c') (hV : ∀ m, c.forest.Below n m → (V m ↔ V' m))
    (hopens : opens ↔ opens') : Touched env a n V' opens' c c' := by
  refine ⟨h.rootId, h.child, h.permissions, fun ho => h.opened (hopens.mpr ho),
    fun ho => h.notOpened fun ho' => ho (hopens.mp ho'), ?_, ?_⟩
  · exact fun m hm hv => h.visited m hm ((hV m hm).mpr hv)
  · exact fun m hm hv => h.kept m hm fun hv' => hv ((hV m hm).mp hv')

/-- The entries below the node stay. -/
theorem entry_eq (h : Touched env a n V opens c c') (hgrown : c.forest.Grown) (hpos : 0 < n) (m : NodeId)
    (hm : c.forest.Below n m) : c'.forest.entry m = c.forest.entry m := by
  have hne : m ≠ 0 := (hpos.trans_le (hgrown.le_of_below hm)).ne'
  by_cases hv : V m
  · exact forest_entry_of_stamped hne (h.visited m hm hv)
  · exact forest_entry_of_kept hne (h.kept m hm hv)

theorem trans (h : Touched env a n V opens c c') (h' : Touched env a n V' opens' c' c'')
    (hgrown : c.forest.Grown) (hpos : 0 < n) :
    Touched env a n (fun m => V m ∨ V' m) (opens ∨ opens') c c'' := by
  have hbelow : ∀ m, c.forest.Below n m → c'.forest.Below n m :=
    fun m hm => (below_congr (h.entry_eq hgrown hpos)).mpr hm
  refine ⟨h'.rootId.trans h.rootId, h'.child.trans h.child, h'.permissions.trans h.permissions, ?_, ?_,
    ?_, ?_⟩
  · intro ho
    by_cases hlast : opens'
    · exact h'.opened hlast
    · rw [h'.notOpened hlast, h.opened (ho.resolve_right hlast)]
  · intro ho
    rw [not_or] at ho
    rw [h'.notOpened ho.2, h.notOpened ho.1]
  · intro m hm hv
    by_cases hlast : V' m
    · rw [h'.visited m (hbelow m hm) hlast]
      by_cases hfirst : V m
      · rw [h.visited m hm hfirst, Option.map_map]
        rfl
      · rw [h.kept m hm hfirst]
    · rw [h'.kept m (hbelow m hm) hlast, h.visited m hm (hv.resolve_right hlast)]
  · intro m hm hv
    rw [not_or] at hv
    rw [h'.kept m (hbelow m hm) hv.2, h.kept m hm hv.1]

/-- Accounts and pools are in no tree. -/
theorem of_frame (h : c' = { c with accounts := c'.accounts, sharedStoragePools := c'.sharedStoragePools }) :
    Touched env a n (fun _ => False) False c c' := by
  rw [h]
  exact ⟨rfl, rfl, rfl, fun h => h.elim, fun _ => rfl, fun _ _ h => h.elim, fun _ _ _ => rfl⟩

end Touched

/-- Opening an account adds a node and a key of the root. -/
theorem touched_of_internalUnwrapAccountOrCreate {deposit : ℕ} {transfers : List Transfer}
    {account : Account} (hsound : c.Sound) (ha : c.rootNode.children.get a = some (.node n))
    (h : c.internalUnwrapAccountOrCreate host env id deposit = .ok (c', transfers, account)) :
    Touched env a n (fun _ => False) (c.rootNode.children.get id = none) c c' := by
  rcases internalUnwrapAccountOrCreate_cases h with ⟨rfl, r, hr⟩ | ⟨hnew, _, _, hsaves⟩
  · exact (Touched.refl env a n c').congr (fun _ _ => Iff.rfl) (by simp [hr])
  · have hne : a ≠ id := by
      rintro rfl
      cases hnew.symm.trans ha
    rw [hsaves.frame]
    refine ⟨rfl, UnorderedMap.get_insert_of_ne hne, rfl, fun _ => rfl, fun ho => absurd hnew ho,
      fun _ _ hv => hv.elim, fun m hm _ => ?_⟩
    have hlt : m < c.nodeCount := hsound.grown.lt_count_of_below hm
      (hsound.grown.target_lt 0 a _ n ha rfl)
    show Option.map _ (AList.lookup m (AList.insert c.nodeCount _ c.nodes)) = _
    rw [AList.lookup_insert_ne hlt.ne]
    rfl

/-- A stored node has the entries that the forest has. -/
theorem Contract.Sound.entry_of_stored (h : c.Sound) {node : Node} (hget : c.internalGetNode m = some node) :
    m ≠ 0 ∧ node.nodeId = m ∧ ∀ k, c.forest.entry m k = node.children.get k := by
  obtain ⟨stored, hlookup, rfl⟩ := Option.map_eq_some_iff.mp hget
  have hmem : m ∈ c.nodes := AList.lookup_isSome.mp (Option.isSome_of_eq_some hlookup)
  have hpos : m ≠ 0 := ((h.mem_nodes m).mp hmem).1.ne'
  exact ⟨hpos, rfl, fun k => congrFun (Contract.forest_entry_of_lookup hpos hlookup) k⟩

/-- The trees of other accounts are apart. -/
theorem Contract.Sound.apart (h : c.Sound) (ha : c.rootNode.children.get a = some (.node n)) :
    Apart (fun m => c.forest.Below n m) c := by
  refine ⟨fun m hm => ?_, fun m node hm hget => ⟨?_, fun k t hchild ht => ?_⟩⟩
  · exact h.grown.lt_count_of_below hm (h.grown.target_lt 0 a _ n ha rfl)
  · rw [(h.entry_of_stored hget).2.1]
    exact hm
  · obtain ⟨hpos, -, hentries⟩ := h.entry_of_stored hget
    have hentry : c.forest.entry m k = some (.node t) := (hentries k).trans hchild
    -- The node is led to by one entry, and this one is not below the account.
    rcases Relation.ReflTransGen.cases_tail ht with rfl | ⟨m', hm', k', v, hentry', htarget⟩
    · exact hpos (h.grown.unique m k _ 0 a _ t hentry rfl ha rfl).1
    · obtain ⟨rfl, -⟩ := h.grown.unique m k _ m' k' _ t hentry rfl hentry' htarget
      exact hm hm'

/-- What is written for an account of the data. -/
theorem touched_of_setAccount {deposit : ℕ} {transfers : List Transfer} (hsound : c.Sound)
    (ha : c.rootNode.children.get a = some (.node n)) (hother : a ≠ env.predecessorAccountId)
    (hgranted : ∀ m, ¬ Granted env c n m)
    (h : c.setAccount host env id value deposit = .ok (c', transfers)) :
    Touched env a n (fun m => id = a ∧ Visits c.forest n value m)
      (c.rootNode.children.get id = none) c c' := by
  simp only [Contract.setAccount, bind_eq_ok, pure_eq_ok, Prod.mk.injEq] at h
  obtain ⟨⟨c₁, transfers₁, account⟩, hcreate, node, hnode, t₁, hstart, c₂, hset, t₂, hstop,
    ⟨c₃, existed⟩, hsave, rfl, rfl⟩ := h
  have hcreated := touched_of_internalUnwrapAccountOrCreate hsound ha hcreate
  obtain ⟨-, credited, rest, r, record, balance, hmoves, -, hr, -, -, rfl⟩ :=
    moves_of_internalUnwrapAccountOrCreate (fun _ => True) (fun _ => True) hsound hcreate
  have hsound₁ := hmoves.sound hsound
  have ha₁ : c₁.rootNode.children.get a = some (.node n) := hcreated.child.trans ha
  have hpos : 0 < n := hsound.grown.lt_target 0 a _ n ha rfl
  obtain ⟨-, -, account', hsaves⟩ := internalSetAccount_saves hsave
  have hsaved : Touched env a n (fun _ => False) False c₂ c₃ := .of_frame (by rw [hsaves.frame])
  have hwritten : Touched env a n (fun m => id = a ∧ Visits c₁.forest n value m) False c₁ c₂ := by
    by_cases hid : id = a
    · subst hid
      cases ha₁.symm.trans hr
      have hwritable : c₁.internalGetWriteableNodeIds env { record.loaded n with storageBalance := balance } =
          ∅ := by
        refine Finset.eq_empty_of_forall_notMem fun m hm => hgranted m ?_
        have hm : Granted env c₁ n m := granted_of_writeable hm
        simpa only [Granted, Contract.permissionsOf, hcreated.permissions] using hm
      simp only [hother, decide_false, Bool.false_eq_true, if_false, hwritable] at hset
      have hstamps := stamps_of_recursiveSet value hsound₁.grown hpos hnode hset
      refine ⟨?_, ?_, ?_, fun ho => ho.elim, fun _ => ?_, fun m _ hv => hstamps.visited m hv.2,
        fun m _ hv => hstamps.kept m fun hv' => hv ⟨rfl, hv'⟩⟩
      all_goals rw [hstamps.frame]
    · have hpos' : 0 < r := hsound₁.grown.lt_target 0 id _ r hr rfl
      have hwrote := wroteValue_of_recursiveSet (L := fun _ => True) hsound₁ hpos' hnode
        (fun _ _ => trivial) hset
      have hapart := hsound₁.apart ha₁
      have hnot : ¬ c₁.forest.Below n r := fun hbelow =>
        hid (hsound₁.account_unique hr ha₁ (.refl _ r) hbelow).1
      have hkeeping := kept_of_recursiveSet value hapart
        (hapart.closed r node hnot (internalUnwrapNode_eq_ok_iff.mp hnode)) hset
      refine ⟨?_, ?_, ?_, fun ho => ho.elim, fun _ => ?_, fun m _ hv => absurd hv.1 hid,
        fun m hm _ => hkeeping.kept m hm⟩
      all_goals rw [hwrote.grows.frame]
  have hentry := hcreated.entry_eq hsound.grown hpos
  have hboth := (hcreated.trans hwritten hsound.grown hpos).trans hsaved hsound.grown hpos
  refine hboth.congr (fun m _ => ?_) (by simp)
  rw [visits_congr hentry]
  simp

/-- **What data does** to the tree of an account that lets its caller write nowhere: it saves the nodes
that the data of the account visits. -/
theorem touched_of_setAccounts {options : SetOptions} {data : List (String × Json)} {deposit rest : ℕ}
    {transfers : List Transfer} (hsound : c.Sound) (ha : c.rootNode.children.get a = some (.node n))
    (hother : a ≠ env.predecessorAccountId) (hgranted : ∀ m, ¬ Granted env c n m)
    (h : Contract.setAccounts host env options c data deposit = .ok (c', transfers, rest)) :
    Touched env a n (fun m => ∃ value, (a, value) ∈ data ∧ Visits c.forest n value m)
      (∃ id ∈ data.map Prod.fst, c.rootNode.children.get id = none) c c' := by
  induction data generalizing c deposit transfers with
  | nil =>
    cases h
    refine (Touched.refl env a n c').congr (fun m _ => ?_) ?_
    · simp
    · simp
  | cons entry data ih =>
    obtain ⟨id, value⟩ := entry
    obtain ⟨c₁, created, c₂, refunded, transfers₃, hset, hrefund, hrest, -⟩ := setAccounts_cons h
    have hsound₁ := sound_of_setAccount hsound hset
    have hsound₂ := sound_of_refundUnused hsound₁ hrefund
    have hpos : 0 < n := hsound.grown.lt_target 0 a _ n ha rfl
    have hfirst := (touched_of_setAccount hsound ha hother hgranted hset).trans
      (.of_frame (frame_of_refundUnused hrefund)) hsound.grown hpos
    have hothers := ih hsound₂ (hfirst.child.trans ha)
      (by simpa only [Granted, Contract.permissionsOf, hfirst.permissions] using hgranted) hrest
    have hentry := hfirst.entry_eq hsound.grown hpos
    refine (hfirst.trans hothers hsound.grown hpos).congr (fun m _ => ?_) ?_
    · simp only [visits_congr hentry, List.mem_cons]
      constructor
      · rintro ((⟨rfl, hvisits⟩ | hfalse) | ⟨value', hmem, hvisits⟩)
        · exact ⟨value, .inl rfl, hvisits⟩
        · exact hfalse.elim
        · exact ⟨value', .inr hmem, hvisits⟩
      · rintro ⟨value', heq | hmem, hvisits⟩
        · cases heq
          exact .inl (.inl ⟨rfl, hvisits⟩)
        · exact .inr ⟨value', hmem, hvisits⟩
    · have hauthorized := (authorized_of_setAccount hsound hset).trans
        (authorized_of_refundUnused hrefund) hsound hsound₁ hsound₂
      rw [List.map_cons, List.exists_mem_cons_iff, or_false]
      constructor
      · rintro (hnew | ⟨id', hmem, hnew⟩)
        · exact .inl hnew
        · refine .inr ⟨id', hmem, ?_⟩
          cases hold : c.rootNode.children.get id' with
          | none => rfl
          | some v =>
            obtain ⟨-, r, rfl, -⟩ := hsound.root id' v hold
            cases hnew.symm.trans (hauthorized.kept 0 id' _ r hold rfl)
      · rintro (hnew | ⟨id', hmem, hnew⟩)
        · exact .inl hnew
        · by_cases heq : id' = id
          · exact .inl (heq ▸ hnew)
          · exact .inr ⟨id', hmem, (hauthorized.root id' (by simpa using heq)).trans hnew⟩

end Trees

end UncContracts.Social
