import UncContracts.Social.Coverage
import UncContracts.Social.Genesis

/-!
# Migration

A contract is copied to a new one: its nodes and its accounts are read page by page, and written in
batches by the methods of the genesis. What is copied of a node are its children, and of an account
its balance, its bytes and its permissions. The pools stay behind, and so does the storage that an
account has from one.

## Main definitions

* `Contract.exportNodes`, `Contract.exportAccounts`: the pages of a contract
* `importCalls`: the calls that fill a contract
* `Migrated`: a contract has the nodes and the accounts of another one
* `Copied`: the nodes and the records of a contract are copied, without its pools
* `Contract.Portable`: a contract that survives its migration

## Main results

* `filled_run`, `registered_run`: what batches of nodes and of accounts fill
* `migrated_iff`: when the migration of a contract is a copy of it
-/

namespace UncContracts.Social

open Foundation UnorderedMap

/-! ## Pages and batches -/

/-- The first indexes of pages, as many as there are for a count. -/
def pageStarts (count limit : ℕ) : List ℕ :=
  (List.range ((count + limit - 1) / limit)).map (· * limit)

namespace Contract

variable (c : Contract)

def exportNodes (limit : ℕ) : Exec (List (Option PartialNode)) := do
  let pages ← (pageStarts c.nodeCount limit).mapM fun i => c.getNodes (some i) (some limit)
  return pages.flatten

def exportAccounts (limit : ℕ) : Exec (List (AccountId × AccountView)) := do
  let pages ← (pageStarts c.getAccountCount limit).mapM fun i => c.getAccounts (some i) (some limit)
  return pages.flatten

end Contract

/-- The calls that fill a contract: the number of nodes, batches of nodes and batches of accounts,
each in an environment of its own. -/
def importCalls (env : Env) (nodeCount : ℕ) (nodes : List (Env × List PartialNode))
    (accounts : List (Env × List (AccountId × PartialAccount))) : List Label :=
  .genesis env (.genesisInitNodeCount nodeCount) ::
    (nodes.map (fun b => .genesis b.1 (.genesisInitNodes b.2)) ++
      accounts.map fun b => .genesis b.1 (.genesisInitAccounts b.2))

/-- The contract calls itself, without a deposit. -/
structure IsPrivate (env : Env) : Prop where
  predecessor : env.predecessorAccountId = env.currentAccountId
  valid : isValidAccountId env.predecessorAccountId = true
  deposit : env.attachedDeposit = 0

/-! ## Copies -/

/-- A value without the height that it was set at. -/
def NodeValue.content : NodeValue → NodeValue
  | .value v => .value { v with blockHeight := 0 }
  | .node nodeId => .node nodeId
  | .deletedEntry _ => .deletedEntry 0

/-- The child of a node under a key, without its height. -/
def Contract.contentAt (c : Contract) (n : NodeId) (key : String) : Option NodeValue :=
  (c.forest.entry n key).map NodeValue.content

/-- What a migration is for: the nodes, the accounts and their permissions are those of the other
contract, and the accounts have as much available. -/
structure Migrated (host : Host) (c c' : Contract) : Prop where
  nodeCount : c'.nodeCount = c.nodeCount
  children : ∀ n key, c'.contentAt n key = c.contentAt n key
  accounts : ∀ id, (c'.internalGetAccount id).map (Option.map fun a => (a.storageBalance, a.usedBytes)) =
    (c.internalGetAccount id).map (Option.map fun a => (a.storageBalance, a.usedBytes))
  permissions : ∀ n key, (c'.permissionsOf n).get key = (c.permissionsOf n).get key
  available : ∀ id, c'.internalStorageBalanceOf host id = c.internalStorageBalanceOf host id

/-- A contract that survives its migration: every node has as many children as a word counts, and an
account that has bytes in use from a pool, at a price, has nothing available. -/
structure Contract.Portable (host : Host) (c : Contract) : Prop where
  root : c.rootNode.children.entries.length ≤ u32Max
  nodes : ∀ n node, c.nodes.lookup n = some node → node.children.entries.length ≤ u32Max
  accounts : ∀ id account, c.internalGetAccount id = .ok (some account) →
    account.sharedUsedBytes = 0 ∨ host.storageByteCost = 0 ∨ account.storageBalance ≤
      saturatingMul (account.usedBytes - account.sharedUsedBytes) host.storageByteCost

section Export

variable {c : Contract} {β : Type}

/-- Pages that return what there is between two indexes. -/
theorem pages_eq_ok (get : ℕ → Exec (List β)) (g : ℕ → β) (total count limit : ℕ)
    (h : ∀ i ∈ pageStarts count limit, get i = .ok ((List.Ico i (min total (i + limit))).map g)) :
    (do
      let pages ← (pageStarts count limit).mapM get
      return pages.flatten : Exec (List β)) =
        .ok ((List.range (min total ((count + limit - 1) / limit * limit))).map g) := by
  rw [mapM_eq_ok h, ok_bind, ← flatMap_pages, pageStarts, List.map_map, List.map_flatMap,
    List.flatMap_def]
  rfl

/-- The pages reach as far as the count. -/
theorem le_pages {count limit : ℕ} (hlimit : 0 < limit) :
    count ≤ (count + limit - 1) / limit * limit := by
  have hmod := Nat.div_add_mod (count + limit - 1) limit
  have hlt := Nat.mod_lt (count + limit - 1) hlimit
  rw [Nat.mul_comm]
  omega

/-! ### Nodes -/

/-- The node of an id, or the root. -/
def Contract.nodeAt (c : Contract) (n : NodeId) : Option Node :=
  if n = 0 then some c.rootNode else c.internalGetNode n

/-- What a view holds of a node. The number of children is cut to a word. -/
def exported (node : Node) : PartialNode where
  nodeId := node.nodeId
  blockHeight := node.blockHeight
  children := node.children.entries.take (node.children.entries.length % 2 ^ 32)
  fromIndex := 0
  numChildren := node.children.entries.length % 2 ^ 32

theorem partialNodeView_none (node : Node) : partialNodeView node none none = .ok (exported node) := by
  have hle : node.children.entries.length % 2 ^ 32 ≤ u32Max :=
    Nat.le_of_lt_succ (Nat.mod_lt _ (by decide))
  simp only [partialNodeView, Option.getD_none, checkedAdd, Nat.zero_add, if_pos hle, ok_bind,
    Nat.min_self, List.drop_zero]
  rfl

theorem getNode_none (c : Contract) (n : NodeId) :
    c.getNode n none none = .ok ((c.nodeAt n).map exported) := by
  unfold Contract.getNode Contract.nodeAt
  split
  · simp [partialNodeView_none]
  · cases c.internalGetNode n with
    | none => rfl
    | some node => simp [partialNodeView_none]

theorem exportNodes_pages {limit : ℕ} (hlimit : 0 < limit)
    (hrange : ∀ i ∈ pageStarts c.nodeCount limit, i + limit ≤ u32Max) :
    c.exportNodes limit = .ok ((List.range c.nodeCount).map fun n => (c.nodeAt n).map exported) := by
  rw [Contract.exportNodes, pages_eq_ok _ (fun n => (c.nodeAt n).map exported) c.nodeCount _ _ ?_,
    Nat.min_eq_left (le_pages hlimit)]
  intro i hi
  simp only [Contract.getNodes, Option.getD_some, checkedAdd, if_pos (hrange i hi), ok_bind]
  exact mapM_eq_ok fun n _ => getNode_none c n

end Export

/-! ## Batches of nodes -/

section Nodes

variable {env : Env} {c c' : Contract} {p : PartialNode} {count : ℕ} {done all : List PartialNode}

@[simp] theorem NodeValue.content_intoCurrentHeight (env : Env) (v : NodeValue) :
    (v.intoCurrentHeight env).content = v.content := by
  cases v <;> rfl

theorem NodeValue.content_eq_node {v : NodeValue} {n : NodeId} :
    v.content = .node n ↔ v = .node n := by
  cases v <;> simp [NodeValue.content]

/-- The children of a part of a node are written over those that are there. -/
theorem get_populateNode {node : Node} (h : (p.children.map Prod.fst).Nodup) (key : String) :
    ((populateNode env node p).children.get key).map NodeValue.content =
      ((find key p.children).map NodeValue.content).or ((node.children.get key).map NodeValue.content) := by
  have hget := get_foldl_insert (NodeValue.intoCurrentHeight env) h node.children key
  rw [populateNode]
  dsimp only at hget ⊢
  rw [hget]
  cases find key p.children with
  | none => rfl
  | some v => simp

/-- A part of a node other than the root is written to the node, which is made if it is missing. -/
theorem genesisInitNode_of_ne (env : Env) (c : Contract) (h : p.nodeId ≠ 0) :
    ∃ node, c.genesisInitNode env p = .ok (c.internalSetNode env (populateNode env node p)) ∧
      node.nodeId = p.nodeId ∧ ∀ key, node.children.get key = c.forest.entry p.nodeId key := by
  unfold Contract.genesisInitNode
  cases hlookup : c.nodes.lookup p.nodeId with
  | none =>
    simp only [if_neg h, Contract.internalGetNode, hlookup, Option.map_none]
    refine ⟨_, rfl, rfl, ?_⟩
    intro key
    simp [Contract.forest, h, hlookup]
  | some node =>
    simp only [if_neg h, Contract.internalGetNode, hlookup, Option.map_some]
    refine ⟨_, rfl, rfl, ?_⟩
    intro key
    rw [Contract.forest_entry_of_lookup h hlookup]

/-- Filling a part of a node writes its children, and leaves the other nodes. -/
theorem genesisInitNode_eq_ok (env : Env) (c : Contract) (h : (p.children.map Prod.fst).Nodup) :
    ∃ c', c.genesisInitNode env p = .ok c' ∧
      c' = { c with rootNode := c'.rootNode, nodes := c'.nodes } ∧
      (∀ n, n ≠ p.nodeId → c'.contentAt n = c.contentAt n) ∧
      ∀ key, c'.contentAt p.nodeId key =
        ((find key p.children).map NodeValue.content).or (c.contentAt p.nodeId key) := by
  by_cases hroot : p.nodeId = 0
  · refine ⟨_, if_pos hroot, rfl, ?_, ?_⟩
    · intro n hn
      rw [hroot] at hn
      funext key
      simp only [Contract.contentAt, Contract.forest, if_neg hn]
    · intro key
      simp only [Contract.contentAt, Contract.forest, hroot, if_pos]
      exact get_populateNode h key
  · obtain ⟨node, hinit, hid, hget⟩ := genesisInitNode_of_ne env c hroot
    have hid' : (populateNode env node p).nodeId = p.nodeId := hid
    refine ⟨_, hinit, rfl, ?_, ?_⟩
    · intro n hn
      funext key
      rw [Contract.contentAt, Contract.forest_internalSetNode_of_ne (hid' ▸ hn), Contract.contentAt]
    · intro key
      have hself : (c.internalSetNode env (populateNode env node p)).forest.entry
          (populateNode env node p).nodeId = (populateNode env node p).children.get :=
        Contract.forest_internalSetNode_self (hid' ▸ hroot)
      rw [hid'] at hself
      rw [Contract.contentAt, hself, get_populateNode h, hget, Contract.contentAt]

/-- A contract of which some nodes are filled. -/
structure Filled (count : ℕ) (done : List PartialNode) (c : Contract) : Prop where
  status : c.status = .genesis
  nodeCount : c.nodeCount = count
  accounts : c.accounts = ∅
  permissions : c.permissions = ∅
  filled : ∀ p ∈ done, ∀ key, c.contentAt p.nodeId key = (find key p.children).map NodeValue.content
  empty : ∀ n key, (∀ p ∈ done, p.nodeId ≠ n) → c.contentAt n key = none

/-- Filling one more node. -/
theorem Filled.snoc (h : Filled count done c) (env : Env) (hchildren : (p.children.map Prod.fst).Nodup)
    (hnew : ∀ q ∈ done, q.nodeId ≠ p.nodeId) :
    ∃ c', c.genesisInitNode env p = .ok c' ∧ Filled count (done ++ [p]) c' := by
  obtain ⟨c', hinit, hframe, hothers, hself⟩ := genesisInitNode_eq_ok env c hchildren
  refine ⟨c', hinit, ?_, ?_, ?_, ?_, ?_, ?_⟩
  · rw [hframe, h.status]
  · rw [hframe, h.nodeCount]
  · rw [hframe, h.accounts]
  · rw [hframe, h.permissions]
  · intro q hq key
    rcases List.mem_append.mp hq with hq | hq
    · rw [hothers _ (hnew q hq), h.filled q hq]
    · obtain rfl := List.mem_singleton.mp hq
      rw [hself, h.empty _ _ hnew, Option.or_none]
  · intro n key hn
    simp only [List.mem_append, List.mem_singleton] at hn
    rw [hothers n (hn p (.inr rfl)).symm]
    exact h.empty n key fun q hq => hn q (.inl hq)

/-- **Batches of nodes.** The nodes that are cut into batches are filled, each as it is. -/
theorem filled_run {host : Host} {batches : List (Env × List PartialNode)}
    (hprivate : ∀ b ∈ batches, IsPrivate b.1)
    (hids : ((batches.flatMap Prod.snd).map PartialNode.nodeId).Nodup)
    (hchildren : ∀ p ∈ batches.flatMap Prod.snd, (p.children.map Prod.fst).Nodup)
    (h : Filled count [] c) : Filled count (batches.flatMap Prod.snd)
      ((upgradable host).run c (batches.map fun b => .genesis b.1 (.genesisInitNodes b.2))) := by
  refine Machine.run_batches (M := upgradable host) (R := Filled count) ?_ h
  -- A node is in one batch only, so that it is empty before it is filled.
  intro b hb done rest c hall hfilled
  have henv := hprivate b hb
  have hstep : ∀ done p c, p ∈ batches.flatMap Prod.snd → (∀ q ∈ done, q.nodeId ≠ p.nodeId) →
      Filled count done c → ∃ c', c.genesisInitNode b.1 p = .ok c' ∧ Filled count (done ++ [p]) c' :=
    fun _ p _ hmem hnew hfilled => hfilled.snoc b.1 (hchildren p hmem) hnew
  obtain ⟨c', hfold, hfilled'⟩ := foldlM_part_of_nodup hids hstep hall hfilled
  refine ⟨c', ?_, hfilled'⟩
  simp only [upgradable, Contract.callGenesis, bind_eq_ok, ensure_eq_ok, Contract.genesisInitNodes,
    Contract.assertGenesis]
  refine ⟨(), ?_, (), henv.deposit, (), henv.predecessor, (), hfilled.status, hfold⟩
  simp [GenesisMethod.accountIds, henv.valid]

end Nodes

/-! ## Batches of accounts -/

section Accounts

variable {c₀ c : Contract} {e : AccountId × PartialAccount} {done : List (AccountId × PartialAccount)}

/-- The record of an account that is filled. It has no shared storage. -/
def PartialAccount.stored (account : PartialAccount) : VAccount :=
  { Account.new 0 with storageBalance := account.storageBalance, usedBytes := account.usedBytes }.stored

/-- An account without a record yet is filled. -/
theorem genesisInitAccount_eq_ok (hroot : c.rootNode.children.get e.1 = some (.node e.2.nodeId))
    (hrecord : c.accounts.lookup e.2.nodeId = none) :
    c.genesisInitAccount e = .ok { c with
      permissions := c.permissions.insert e.2.nodeId (e.2.permissions.foldl
        (fun permissions entry => permissions.insert entry.1 (id entry.2)) (c.permissionsOf e.2.nodeId))
      accounts := c.accounts.insert e.2.nodeId e.2.stored } := by
  simp only [Contract.genesisInitAccount, hroot, hrecord, expect, ok_bind, pure_bind, ensure, if_true]
  rfl

/-- A contract of which some accounts are filled, besides its nodes. -/
structure Registered (c₀ : Contract) (done : List (AccountId × PartialAccount)) (c : Contract) :
    Prop where
  frame : c = { c₀ with accounts := c.accounts, permissions := c.permissions }
  record : ∀ e ∈ done, c.accounts.lookup e.2.nodeId = some e.2.stored
  permissions : ∀ e ∈ done, ∀ key, (c.permissionsOf e.2.nodeId).get key = find key e.2.permissions
  empty : ∀ n, (∀ e ∈ done, e.2.nodeId ≠ n) →
    c.accounts.lookup n = none ∧ c.permissions.lookup n = none

/-- Filling one more account. -/
theorem Registered.snoc (h : Registered c₀ done c)
    (hroot : c₀.rootNode.children.get e.1 = some (.node e.2.nodeId))
    (hpermissions : (e.2.permissions.map Prod.fst).Nodup) (hnew : ∀ d ∈ done, d.2.nodeId ≠ e.2.nodeId) :
    ∃ c', c.genesisInitAccount e = .ok c' ∧ Registered c₀ (done ++ [e]) c' := by
  obtain ⟨hrecord, hgranted⟩ := h.empty e.2.nodeId hnew
  have hroot' : c.rootNode.children.get e.1 = some (.node e.2.nodeId) := by
    rw [h.frame]
    exact hroot
  refine ⟨_, genesisInitAccount_eq_ok hroot' hrecord, ?_, ?_, ?_, ?_⟩
  · have hframe := h.frame
    rw [Contract.mk.injEq] at hframe ⊢
    exact ⟨rfl, rfl, hframe.2.2⟩
  · intro d hd
    rcases List.mem_append.mp hd with hd | hd
    · dsimp only
      rw [AList.lookup_insert_ne (hnew d hd), h.record d hd]
    · obtain rfl := List.mem_singleton.mp hd
      exact AList.lookup_insert _
  · intro d hd key
    rcases List.mem_append.mp hd with hd | hd
    · simp only [Contract.permissionsOf, AList.lookup_insert_ne (hnew d hd)]
      exact h.permissions d hd key
    · obtain rfl := List.mem_singleton.mp hd
      simp only [Contract.permissionsOf, AList.lookup_insert, Option.getD_some]
      rw [get_foldl_insert _ hpermissions, hgranted, Option.getD_none, get_empty, Option.or_none, Option.map_id_fun, id]
  · intro n hn
    simp only [List.mem_append, List.mem_singleton] at hn
    have hne := (hn e (.inr rfl)).symm
    dsimp only
    rw [AList.lookup_insert_ne hne, AList.lookup_insert_ne hne]
    exact h.empty n fun d hd => hn d (.inl hd)

/-- **Batches of accounts.** The accounts that are cut into batches are filled, each as it is. -/
theorem registered_run {host : Host} {batches : List (Env × List (AccountId × PartialAccount))}
    (hprivate : ∀ b ∈ batches, IsPrivate b.1) (hstatus : c₀.status = .genesis)
    (hvalid : ∀ e ∈ batches.flatMap Prod.snd, isValidAccountId e.1 = true)
    (hroot : ∀ e ∈ batches.flatMap Prod.snd,
      c₀.rootNode.children.get e.1 = some (.node e.2.nodeId))
    (hids : ((batches.flatMap Prod.snd).map fun e => e.2.nodeId).Nodup)
    (hpermissions : ∀ e ∈ batches.flatMap Prod.snd, (e.2.permissions.map Prod.fst).Nodup)
    (h : Registered c₀ [] c) : Registered c₀ (batches.flatMap Prod.snd)
      ((upgradable host).run c (batches.map fun b => .genesis b.1 (.genesisInitAccounts b.2))) := by
  refine Machine.run_batches (M := upgradable host) (R := Registered c₀) ?_ h
  intro b hb done rest c hall hregistered
  have henv := hprivate b hb
  have hstep : ∀ done e c, e ∈ batches.flatMap Prod.snd → (∀ d ∈ done, d.2.nodeId ≠ e.2.nodeId) →
      Registered c₀ done c → ∃ c', c.genesisInitAccount e = .ok c' ∧ Registered c₀ (done ++ [e]) c' :=
    fun _ e _ hmem hnew hregistered => hregistered.snoc (hroot e hmem) (hpermissions e hmem) hnew
  obtain ⟨c', hfold, hregistered'⟩ := foldlM_part_of_nodup hids hstep hall hregistered
  refine ⟨c', ?_, hregistered'⟩
  simp only [upgradable, Contract.callGenesis, bind_eq_ok, ensure_eq_ok, Contract.genesisInitAccounts,
    Contract.assertGenesis]
  refine ⟨(), ?_, (), henv.deposit, (), henv.predecessor, (), ?_, hfold⟩
  · rw [List.forall_mem_cons]
    refine ⟨henv.valid, ?_⟩
    intro id hid
    obtain ⟨e, he, rfl⟩ := List.mem_map.mp hid
    refine hvalid e ?_
    rw [← hall]
    simp [he]
  · rw [hregistered.frame, hstatus]

end Accounts

/-! ## Contracts that are read -/

/-- What is read of a contract besides what is sound: the root has its own id, and balances fit in a
word. -/
structure Contract.Readable (c : Contract) : Prop where
  root_id : c.rootNode.nodeId = 0
  balance_le : ∀ n a, c.accounts.lookup n = some (Account.stored a) → a.storageBalance ≤ u128Max

section Readable

variable {host : Host} {env : Env} {L : String → Prop} {P : SharedStoragePool → Prop}
  {c c₁ c' : Contract} {account account' : Account} {deposit : ℕ} {transfers : List Transfer}

/-- Saving an account with a balance that fits keeps the balances. -/
theorem Saves.readable (h : Saves host c₁ account c' account') (hc : c.Readable)
    (hbalance : account.storageBalance ≤ u128Max) (hroot : c₁.rootNode.nodeId = c.rootNode.nodeId)
    (hothers : ∀ m, m ≠ account.nodeId → c₁.accounts.lookup m = c.accounts.lookup m) :
    c'.Readable := by
  rw [h.frame]
  refine ⟨hroot.trans hc.root_id, ?_⟩
  intro m a hm
  by_cases heq : m = account.nodeId
  · subst heq
    rw [AList.lookup_insert, Option.some.injEq] at hm
    simp only [Account.stored, VAccount.current.injEq, Account.mk.injEq] at hm
    rw [← hm.1, h.balance]
    exact hbalance
  · rw [AList.lookup_insert_ne heq, hothers m heq] at hm
    exact hc.balance_le m a hm

theorem Move.readable (h : Move host env L P c c' deposit transfers) (hdeposit : deposit ≤ u128Max)
    (hc : c.Readable) : c'.Readable := by
  cases h with
  | @updated n a a' _ balance c₁ _ t ha hedits hbalance htracker hsaves =>
    have hframe := hedits.frame
    refine hsaves.readable hc ?_ (by rw [hframe]) fun m _ => by rw [hframe]
    rcases hbalance with rfl | ⟨-, rfl⟩
    · exact Nat.min_le_right _ _
    · exact hc.balance_le n a ha
  | created hid hnew hopens hc₁ htracker hsaves =>
    subst hc₁
    exact hsaves.readable hc hdeposit rfl fun m hm => AList.lookup_insert_ne hm
  | @withdrawn n a a' amount _ ha hamount hsaves =>
    refine hsaves.readable hc ?_ rfl fun m _ => rfl
    exact (Nat.sub_le _ _).trans (hc.balance_le n a ha)
  | returned => exact hc
  | pooled hpool hdeposit hpool₁ hc₁ hpool' hP =>
    subst hc₁
    exact ⟨hc.root_id, hc.balance_le⟩
  | @shared n a a' s pools c₁ _ t ha hshares hc₁ htracker hsaves =>
    subst hc₁
    exact hsaves.readable hc (hc.balance_le n a ha) rfl fun m hm => AList.lookup_insert_ne hm
  | changed => exact ⟨hc.root_id, hc.balance_le⟩

theorem Moves.readable (h : Moves host env L P c c' deposit transfers) (hdeposit : deposit ≤ u128Max)
    (hc : c.Readable) : c'.Readable := by
  induction h with
  | refl => exact hc
  | tail _ hmove ih =>
    exact hmove.readable ((Nat.le_add_left _ _).trans hdeposit)
      (ih ((Nat.le_add_right _ _).trans hdeposit))

theorem Method.credited_le (method : Method) (env : Env) : method.credited env ≤ u128Max := by
  cases method with
  | storageWithdraw amount => exact Nat.zero_le _
  | _ => exact env.attachedDeposit_le

/-- A contract that calls lead to is sound, covered and readable. -/
theorem readable_run (host : Host) (start : Env) (calls : List Call) :
    ((system host).run (.new start) calls).Readable := by
  refine (Machine.run_invariant (M := system host) (I := fun c => c.Sound ∧ c.Readable)
    (G := fun _ _ => True) ?_ (fun _ _ => trivial) ⟨Contract.sound_new start, rfl, ?_⟩).2
  · rintro c call c' ⟨hsound, hreadable⟩ - h
    obtain ⟨transfers, hmoves⟩ := moves_of_step (L := fun _ => True) (P := fun _ => True) hsound
      (fun _ _ => trivial) (fun _ _ => trivial) h
    exact ⟨hmoves.sound hsound, hmoves.readable (Method.credited_le _ _) hreadable⟩
  · intro n a h
    cases h

end Readable

/-! ## What is exported -/

section Exported

variable {host : Host} {c : Contract} {n : NodeId} {id : AccountId}

/-- Every node that there is exported. -/
theorem Contract.Sound.exists_node (h : c.Sound) (hreadable : c.Readable) (hn : n < c.nodeCount) :
    ∃ node, c.nodeAt n = some node ∧ node.nodeId = n ∧ c.forest.entry n = node.children.get ∧
      (node = c.rootNode ∨ ∃ stored, c.nodes.lookup n = some stored ∧ stored.children = node.children) := by
  by_cases hzero : n = 0
  · subst hzero
    exact ⟨c.rootNode, rfl, hreadable.root_id, rfl, .inl rfl⟩
  · have hmem := (h.mem_nodes n).mpr ⟨Nat.pos_of_ne_zero hzero, hn⟩
    obtain ⟨stored, hlookup⟩ := Option.isSome_iff_exists.mp (AList.lookup_isSome.mpr hmem)
    refine ⟨{ stored with nodeId := n }, ?_, rfl, ?_, .inr ⟨stored, hlookup, rfl⟩⟩
    swap
    · show c.forest.entry n = stored.children.get
      exact Contract.forest_entry_of_lookup hzero hlookup
    simp [Contract.nodeAt, hzero, Contract.internalGetNode, hlookup]

/-- The nodes of a contract, as they are exported. -/
def Contract.exportedNodes (c : Contract) : List PartialNode :=
  (List.range c.nodeCount).filterMap fun n => (c.nodeAt n).map exported

/-- What is exported is a node with its children, as far as they are counted. -/
theorem Contract.mem_exportedNodes {p : PartialNode} :
    p ∈ c.exportedNodes ↔ ∃ n node, n < c.nodeCount ∧ c.nodeAt n = some node ∧ p = exported node := by
  simp only [Contract.exportedNodes, List.mem_filterMap, List.mem_range, Option.map_eq_some_iff]
  constructor
  · rintro ⟨n, hn, node, hnode, rfl⟩
    exact ⟨n, node, hn, hnode, rfl⟩
  · rintro ⟨n, node, hn, hnode, rfl⟩
    exact ⟨n, hn, node, hnode, rfl⟩

/-- The ids of the nodes that are exported. -/
theorem Contract.Sound.nodeIds_exportedNodes (h : c.Sound) (hreadable : c.Readable) :
    c.exportedNodes.map PartialNode.nodeId = List.range c.nodeCount := by
  rw [Contract.exportedNodes, List.map_filterMap]
  refine (List.filterMap_congr ?_).trans List.filterMap_some
  intro n hn
  obtain ⟨node, hnode, hid, -⟩ := h.exists_node hreadable (List.mem_range.mp hn)
  rw [hnode, Option.map_some, Option.map_some, exported, hid]

theorem Contract.Sound.exportNodes_eq_ok (h : c.Sound) (hreadable : c.Readable) {limit : ℕ}
    (hlimit : 0 < limit) (hrange : ∀ i ∈ pageStarts c.nodeCount limit, i + limit ≤ u32Max) :
    c.exportNodes limit = .ok (c.exportedNodes.map some) := by
  rw [exportNodes_pages hlimit hrange, Contract.exportedNodes, List.map_filterMap]
  refine congrArg Except.ok ?_
  rw [← List.filterMap_eq_map]
  refine List.filterMap_congr ?_
  intro n hn
  obtain ⟨node, hnode, -⟩ := h.exists_node hreadable (List.mem_range.mp hn)
  simp [hnode]

/-- An entry of the root is exported as the account of its node. -/
theorem Contract.Sound.accountOf_eq_ok (h : c.Sound) {e : String × NodeValue}
    (he : e ∈ c.rootNode.children.entries) : ∃ n a, e.2 = .node n ∧
      c.accounts.lookup n = some (Account.stored a) ∧
      c.accountOf e = .ok (e.1, a.loaded n, c.permissionsOf n) := by
  obtain ⟨hid, n, hvalue, hn⟩ := h.root e.1 e.2 (get_eq_some.mpr he)
  obtain ⟨r, hr⟩ := Option.isSome_iff_exists.mp (AList.lookup_isSome.mpr hn)
  obtain ⟨a, rfl⟩ := h.records n r hr
  refine ⟨n, a, hvalue, hr, ?_⟩
  have hparse : parseAccountId e.1 = some e.1 := parseAccountId_eq_some.mpr ⟨hid, rfl⟩
  simp only [Contract.accountOf, hvalue, accountAt_of_stored hr, ok_bind, hparse]
  rfl

/-- The accounts are exported in the order of their entries, if a word counts them. -/
theorem Contract.Sound.exportAccounts_eq_ok (h : c.Sound) {limit : ℕ} (hlimit : 0 < limit)
    (hrange : ∀ i ∈ pageStarts c.getAccountCount limit, i + limit ≤ u64Max) :
    ∃ (view : String × NodeValue → AccountId × AccountView) (views : List (AccountId × AccountView)),
      (∀ e ∈ c.rootNode.children.entries, c.accountOf e = .ok (view e)) ∧
      c.exportAccounts limit = .ok views ∧ (c.rootNode.children.entries.length ≤ u32Max →
        views = c.rootNode.children.entries.map view) := by
  obtain ⟨entries, hentries⟩ : ∃ entries, entries = c.rootNode.children.entries := ⟨_, rfl⟩
  rw [← hentries]
  have hnonempty : Nonempty (AccountId × AccountView) := ⟨("", Account.new 0, .empty)⟩
  have hok : ∀ e, e ∈ entries → ∃ view, c.accountOf e = .ok view := by
    intro e he
    obtain ⟨n, a, -, -, hview⟩ := h.accountOf_eq_ok (hentries ▸ he)
    exact ⟨_, hview⟩
  choose! view hview using hok
  have hpages := pages_eq_ok (fun i => c.getAccounts (some i) (some limit))
    (fun j => (entries[j]?.map view).getD ("", Account.new 0, .empty)) entries.length
    c.getAccountCount limit ?_
  · refine ⟨view, _, hview, hpages, ?_⟩
    intro hlength
    have hcount : c.getAccountCount = entries.length := by
      rw [Contract.getAccountCount, ← hentries]
      exact Nat.mod_eq_of_lt (Nat.lt_succ_of_le hlength)
    have hall : entries.length ≤ (c.getAccountCount + limit - 1) / limit * limit :=
      hcount ▸ le_pages hlimit
    rw [Nat.min_eq_left hall]
    refine List.ext_getElem (by rw [List.length_map, List.length_range, List.length_map]) ?_
    intro j hj _
    rw [List.length_map, List.length_range] at hj
    rw [List.getElem_map, List.getElem_map, List.getElem_range, List.getElem?_eq_getElem hj,
      Option.map_some, Option.getD_some]
  · intro i hi
    simp only [Contract.getAccounts, Option.getD_some, checkedAdd, if_pos (hrange i hi), ok_bind,
      ← hentries]
    refine mapM_eq_ok ?_
    intro j hj
    have hlt : j < entries.length := (List.Ico.mem.mp hj).2.trans_le (Nat.min_le_left _ _)
    simp only [List.getElem?_eq_getElem hlt, expect, ok_bind, Option.map_some, Option.getD_some]
    exact hview _ (List.getElem_mem hlt)

end Exported

/-! ## The copy -/

section Copy

variable {host : Host} {env start : Env} {c c' c₁ c₂ : Contract} {n : NodeId} {id : AccountId} {a : Account}
  {nodes : List (Env × List PartialNode)} {accounts : List (Env × List (AccountId × PartialAccount))}

/-- Filling accounts leaves the nodes. -/
theorem frame_of_genesisInitAccount {e : AccountId × PartialAccount}
    (h : c.genesisInitAccount e = .ok c') :
    c' = { c with accounts := c'.accounts, permissions := c'.permissions } := by
  simp only [Contract.genesisInitAccount, bind_eq_ok] at h
  obtain ⟨value, -, h⟩ := h
  cases value with
  | node nodeId =>
    simp only [bind_eq_ok, pure_eq_ok] at h
    obtain ⟨_, -, _, -, rfl⟩ := h
    rfl
  | value v => cases h
  | deletedEntry blockHeight => cases h

theorem frame_of_genesisInitAccounts {batch : List (AccountId × PartialAccount)}
    (h : batch.foldlM Contract.genesisInitAccount c = .ok c') :
    c' = { c with accounts := c'.accounts, permissions := c'.permissions } := by
  induction batch generalizing c with
  | nil =>
    cases h
    rfl
  | cons e batch ih =>
    rw [List.foldlM_cons, bind_eq_ok] at h
    obtain ⟨c₁, hinit, h⟩ := h
    rw [ih h, frame_of_genesisInitAccount hinit]

/-- Batches of accounts leave the nodes, accepted or not. -/
theorem nodes_of_accounts (host : Host) (c : Contract)
    (accounts : List (Env × List (AccountId × PartialAccount))) :
    let c' := (upgradable host).run c (accounts.map fun b => .genesis b.1 (.genesisInitAccounts b.2))
    c'.rootNode = c.rootNode ∧ c'.nodes = c.nodes ∧ c'.nodeCount = c.nodeCount := by
  intro c'
  refine Machine.run_invariant (M := upgradable host)
    (I := fun d => d.rootNode = c.rootNode ∧ d.nodes = c.nodes ∧ d.nodeCount = c.nodeCount)
    (G := fun _ l => ∃ b : Env × List (AccountId × PartialAccount),
      l = .genesis b.1 (.genesisInitAccounts b.2)) ?_ ?_ ⟨rfl, rfl, rfl⟩
  · rintro d l d' hd ⟨b, rfl⟩ hstep
    simp only [upgradable, Contract.callGenesis, bind_eq_ok, Contract.genesisInitAccounts] at hstep
    obtain ⟨_, -, _, -, _, -, _, -, hfold⟩ := hstep
    rw [frame_of_genesisInitAccounts hfold]
    exact hd
  · intro x hx
    obtain ⟨pre, post, hlabels, -, -⟩ := Machine.mem_steps_iff.mp hx
    have hmem : x.label ∈ accounts.map fun b => (.genesis b.1 (.genesisInitAccounts b.2) : Label) := by
      rw [hlabels]
      simp
    obtain ⟨b, -, hb⟩ := List.mem_map.mp hmem
    exact ⟨b, hb.symm⟩

theorem contentAt_congr (hroot : c'.rootNode = c.rootNode) (hnodes : c'.nodes = c.nodes) :
    c'.contentAt = c.contentAt := by
  funext n key
  simp only [Contract.contentAt, Contract.forest, hroot, hnodes]

/-- A contract whose nodes are filled from another one. -/
theorem filled_import (host : Host) (start : Env) (hsound : c.Sound) (hreadable : c.Readable) (henv : IsPrivate env)
    (hprivate : ∀ b ∈ nodes, IsPrivate b.1) (hnodes : nodes.flatMap Prod.snd = c.exportedNodes) :
    Filled c.nodeCount c.exportedNodes
      ((upgradable host).run (.new start) (.genesis env (.genesisInitNodeCount c.nodeCount) ::
        nodes.map fun b => .genesis b.1 (.genesisInitNodes b.2))) := by
  have hcount : (upgradable host).step (.new start) (.genesis env (.genesisInitNodeCount c.nodeCount)) =
      .ok { Contract.new start with nodeCount := c.nodeCount } := by
    simp only [upgradable, Contract.callGenesis, bind_eq_ok, ensure_eq_ok,
      Contract.genesisInitNodeCount, Contract.assertGenesis]
    refine ⟨(), ?_, (), henv.deposit, (), henv.predecessor, (), rfl, rfl⟩
    simp [GenesisMethod.accountIds, henv.valid]
  rw [Machine.run_cons, Machine.exec_of_ok hcount, ← hnodes]
  refine filled_run hprivate ?_ ?_ ?_
  · rw [hnodes, hsound.nodeIds_exportedNodes hreadable]
    exact List.nodup_range
  · intro p hp
    rw [hnodes] at hp
    obtain ⟨n, node, -, -, rfl⟩ := Contract.mem_exportedNodes.mp hp
    exact node.children.nodup.sublist ((List.take_sublist _ _).map Prod.fst)
  · refine ⟨rfl, rfl, rfl, rfl, ?_, ?_⟩
    · intro p hp
      cases hp
    · intro n key _
      simp only [Contract.contentAt, Contract.forest, Contract.new]
      split <;> simp

/-- The children of a node that is filled are those that were exported. -/
theorem Filled.contentAt_exported (h : Filled c.nodeCount c.exportedNodes c₁) (hreadable : c.Readable)
    (hsound : c.Sound) {node : Node} (hn : n < c.nodeCount) (hnode : c.nodeAt n = some node) (key : String) :
    c₁.contentAt n key = (find key (exported node).children).map NodeValue.content := by
  obtain ⟨node', hnode', hid, -⟩ := hsound.exists_node hreadable hn
  cases hnode.symm.trans hnode'
  have hfilled := h.filled (exported node) (Contract.mem_exportedNodes.mpr ⟨n, node, hn, hnode, rfl⟩) key
  rwa [show (exported node).nodeId = n from hid] at hfilled

/-- **Nodes.** The children are those of the other contract, if and only if each node has as many as a
word counts. -/
theorem Filled.contentAt_iff (h : Filled c.nodeCount c.exportedNodes c₁) (hreadable : c.Readable)
    (hsound : c.Sound) : (∀ n key, c₁.contentAt n key = c.contentAt n key) ↔
      c.rootNode.children.entries.length ≤ u32Max ∧
        ∀ n node, c.nodes.lookup n = some node → node.children.entries.length ≤ u32Max := by
  constructor
  · intro hsame
    have hbound : ∀ n node, n < c.nodeCount → c.nodeAt n = some node →
        c.forest.entry n = node.children.get → node.children.entries.length ≤ u32Max := by
      intro n node hn hnode hentry
      by_contra hlong
      -- An entry after those that are counted is lost.
      have hcut : node.children.entries.length % 2 ^ 32 < node.children.entries.length :=
        (Nat.mod_lt _ (by decide)).trans_le (Nat.lt_of_not_le hlong)
      obtain ⟨key, v, hfind, hlost⟩ := exists_cut node.children.nodup hcut
      have hcopy := h.contentAt_exported hreadable hsound hn hnode key
      have hgot : c.contentAt n key = some v.content := by
        rw [Contract.contentAt, hentry, UnorderedMap.get, hfind, Option.map_some]
      rw [hsame, hgot, exported, hlost] at hcopy
      cases hcopy
    refine ⟨?_, ?_⟩
    · exact hbound 0 c.rootNode hsound.count_pos rfl rfl
    · intro n node hlookup
      obtain ⟨hpos, hn⟩ := (hsound.mem_nodes n).mp
        (AList.lookup_isSome.mp (Option.isSome_of_eq_some hlookup))
      refine hbound n { node with nodeId := n } hn ?_ ?_
      · simp [Contract.nodeAt, hpos.ne', Contract.internalGetNode, hlookup]
      · show c.forest.entry n = node.children.get
        exact Contract.forest_entry_of_lookup hpos.ne' hlookup
  · rintro ⟨hroot, hnodes⟩ n key
    by_cases hn : n < c.nodeCount
    · obtain ⟨node, hnode, -, hentry, hstored⟩ := hsound.exists_node hreadable hn
      have hlength : node.children.entries.length ≤ u32Max := by
        rcases hstored with rfl | ⟨stored, hlookup, hchildren⟩
        · exact hroot
        · rw [← hchildren]
          exact hnodes n stored hlookup
      have hlt : node.children.entries.length < 2 ^ 32 := Nat.lt_succ_of_le hlength
      rw [h.contentAt_exported hreadable hsound hn hnode, Contract.contentAt, hentry, exported,
        Nat.mod_eq_of_lt hlt, List.take_length]
      rfl
    · have hge := Nat.le_of_not_lt hn
      rw [h.empty n key, Contract.contentAt, hsound.grown.fresh n key hge, Option.map_none]
      intro p hp heq
      have hmem := List.mem_map_of_mem (f := PartialNode.nodeId) hp
      rw [hsound.nodeIds_exportedNodes hreadable, List.mem_range, heq] at hmem
      exact hn hmem

/-! ### Accounts -/

/-- What is available to an account, from its record. -/
theorem available_of_stored (hshared : a.sharedUsedBytes ≤ a.usedBytes)
    (hid : c.rootNode.children.get id = some (.node n)) (ha : c.accounts.lookup n = some (Account.stored a)) :
    c.internalStorageBalanceOf host id = .ok (some {
      total := a.storageBalance
      available := a.storageBalance -
        saturatingMul (a.usedBytes - a.sharedUsedBytes) host.storageByteCost }) := by
  have hget : c.internalGetAccount id = .ok (some (a.loaded n)) :=
    internalGetAccount_eq_some.mpr ⟨n, hid, accountAt_of_stored ha⟩
  have hown : (a.loaded n).ownBytes = .ok (a.usedBytes - a.sharedUsedBytes) :=
    checkedSub_eq_ok.mpr ⟨hshared, rfl⟩
  simp only [Contract.internalStorageBalanceOf, hget, ok_bind, hown]
  rfl

/-- Bytes that come from a pool are free, unless they have no price or nothing is left anyway. -/
theorem available_eq_iff {balance used shared cost : ℕ} (hbalance : balance ≤ u128Max)
    (hshared : shared ≤ used) : balance - saturatingMul used cost =
      balance - saturatingMul (used - shared) cost ↔
        shared = 0 ∨ cost = 0 ∨ balance ≤ saturatingMul (used - shared) cost := by
  have hprice : used * cost = (used - shared) * cost + shared * cost := by
    rw [← Nat.add_mul, Nat.sub_add_cancel hshared]
  unfold saturatingMul
  rw [hprice]
  constructor
  · intro heq
    by_contra hnot
    simp only [not_or, Nat.not_le] at hnot
    obtain ⟨hpos, hcost, hleft⟩ := hnot
    -- The bytes from the pool would be free before and charged after.
    have hmore : 0 < shared * cost := Nat.mul_pos (Nat.pos_of_ne_zero hpos) (Nat.pos_of_ne_zero hcost)
    omega
  · rintro (rfl | rfl | hle)
    · simp
    · simp
    · omega

/-- The entries of the roots of contracts with the same children lead to the same nodes. -/
theorem root_get_iff (h : ∀ n key, c₁.contentAt n key = c.contentAt n key) :
    c₁.rootNode.children.get id = some (.node n) ↔ c.rootNode.children.get id = some (.node n) := by
  have hroot : (c₁.rootNode.children.get id).map NodeValue.content =
      (c.rootNode.children.get id).map NodeValue.content := h 0 id
  have hnode : ∀ o : Option NodeValue, o = some (.node n) ↔ o.map NodeValue.content = some (.node n) := by
    intro o
    simp only [Option.map_eq_some_iff, NodeValue.content_eq_node, exists_eq_right]
  rw [hnode, hroot, ← hnode]

theorem Contract.Sound.view_eq {view : String × NodeValue → AccountId × AccountView} (h : c.Sound)
    (hview : ∀ e ∈ c.rootNode.children.entries, c.accountOf e = .ok (view e)) {e : String × NodeValue}
    (he : e ∈ c.rootNode.children.entries) : ∃ n a, e = (e.1, .node n) ∧
      c.accounts.lookup n = some (Account.stored a) ∧
      view e = (e.1, a.loaded n, c.permissionsOf n) := by
  obtain ⟨n, a, hvalue, ha, hok⟩ := h.accountOf_eq_ok he
  exact ⟨n, a, Prod.ext rfl hvalue, ha, Except.ok.inj ((hview e he).symm.trans hok)⟩

/-- The accounts of the entries are filled from another contract, each under a node of its own. -/
theorem registered_import (host : Host) {view : String × NodeValue → AccountId × AccountView} (hsound : c.Sound)
    (hstatus : c₁.status = .genesis) (haccounts : c₁.accounts = ∅) (hpermissions : c₁.permissions = ∅)
    (hchildren : ∀ n key, c₁.contentAt n key = c.contentAt n key)
    (hview : ∀ e ∈ c.rootNode.children.entries, c.accountOf e = .ok (view e))
    (hprivate : ∀ b ∈ accounts, IsPrivate b.1)
    (hviews : accounts.flatMap Prod.snd = (c.rootNode.children.entries.map view).map
      fun e => (e.1, PartialAccount.ofView e.2)) :
    Registered c₁ ((c.rootNode.children.entries.map view).map fun e => (e.1, PartialAccount.ofView e.2))
      ((upgradable host).run c₁ (accounts.map fun b => .genesis b.1 (.genesisInitAccounts b.2))) := by
  have hentry : ∀ e ∈ accounts.flatMap Prod.snd, ∃ n a, (e.1, .node n) ∈ c.rootNode.children.entries ∧
      e.2 = PartialAccount.ofView (Account.loaded a n, c.permissionsOf n) := by
    intro e he
    rw [hviews, List.map_map, List.mem_map] at he
    obtain ⟨d, hd, rfl⟩ := he
    obtain ⟨n, a, hd', -, heq⟩ := hsound.view_eq hview hd
    simp only [Function.comp_apply, heq]
    exact ⟨n, a, hd' ▸ hd, rfl⟩
  rw [← hviews]
  refine registered_run hprivate hstatus ?_ ?_ ?_ ?_ ⟨rfl, ?_, ?_, ?_⟩
  · intro e he
    obtain ⟨n, a, hmem, -⟩ := hentry e he
    exact (hsound.root _ _ (get_eq_some.mpr hmem)).1
  · intro e he
    obtain ⟨n, a, hmem, heq⟩ := hentry e he
    rw [heq]
    exact (root_get_iff hchildren).mpr (get_eq_some.mpr hmem)
  · rw [hviews, List.map_map, List.map_map]
    refine List.Nodup.map_on ?_ (List.Nodup.of_map _ c.rootNode.children.nodup)
    intro e he e' he' hsame
    obtain ⟨n, a, hnode, -, heq⟩ := hsound.view_eq hview he
    obtain ⟨n', a', hnode', -, heq'⟩ := hsound.view_eq hview he'
    simp only [Function.comp_apply, heq, heq'] at hsame
    have hn : n = n' := hsame
    subst hn
    have hkey := (hsound.grown.unique 0 e.1 _ 0 e'.1 _ n (get_eq_some.mpr (hnode ▸ he)) rfl
      (get_eq_some.mpr (hnode' ▸ he')) rfl).2
    rw [hnode, hnode', hkey]
  · intro e he
    obtain ⟨n, a, -, heq⟩ := hentry e he
    rw [heq]
    exact (c.permissionsOf n).nodup
  · intro e he
    cases he
  · intro e he
    cases he
  · intro n _
    rw [haccounts, hpermissions]
    exact ⟨AList.lookup_empty n, AList.lookup_empty n⟩

/-- The nodes of a contract, its accounts and their permissions are copied. The records of the copies
have no storage from a pool. -/
structure Copied (c c' : Contract) : Prop where
  nodeCount : c'.nodeCount = c.nodeCount
  children : ∀ n key, c'.contentAt n key = c.contentAt n key
  record : ∀ id n, c.rootNode.children.get id = some (.node n) → ∃ a,
    c.accounts.lookup n = some (Account.stored a) ∧ c'.accounts.lookup n = some (Account.stored
      { Account.new 0 with storageBalance := a.storageBalance, usedBytes := a.usedBytes })
  permissions : ∀ n key, (c'.permissionsOf n).get key = (c.permissionsOf n).get key

/-- A contract whose nodes are filled is copied by filling its accounts. -/
theorem copied_of_registered {view : String × NodeValue → AccountId × AccountView} (hsound : c.Sound)
    (hcount : c'.nodeCount = c.nodeCount) (hchildren : ∀ n key, c'.contentAt n key = c.contentAt n key)
    (hview : ∀ e ∈ c.rootNode.children.entries, c.accountOf e = .ok (view e))
    (h : Registered c₁ ((c.rootNode.children.entries.map view).map
      fun e => (e.1, PartialAccount.ofView e.2)) c') : Copied c c' := by
  have hcopy : ∀ id n, c.rootNode.children.get id = some (.node n) → ∃ a,
      c.accounts.lookup n = some (Account.stored a) ∧
      c'.accounts.lookup n = some (Account.stored { Account.new 0 with
        storageBalance := a.storageBalance, usedBytes := a.usedBytes }) ∧
      ∀ key, (c'.permissionsOf n).get key = (c.permissionsOf n).get key := by
    intro id n hid
    obtain ⟨n', a, hnode, ha, heq⟩ := hsound.view_eq hview (get_eq_some.mp hid)
    cases hnode
    have hmem := List.mem_map_of_mem (f := fun e : AccountId × AccountView =>
      (e.1, PartialAccount.ofView e.2)) (List.mem_map_of_mem (f := view) (get_eq_some.mp hid))
    rw [heq] at hmem
    exact ⟨a, ha, h.record _ hmem, h.permissions _ hmem⟩
  refine ⟨hcount, hchildren, ?_, ?_⟩
  · intro id n hid
    obtain ⟨a, ha, hrecord, -⟩ := hcopy id n hid
    exact ⟨a, ha, hrecord⟩
  · intro n key
    by_cases hn : n ∈ c.accounts
    · obtain ⟨id, hid⟩ := hsound.accounts n hn
      obtain ⟨a, -, -, hpermissions⟩ := hcopy id n hid
      exact hpermissions key
    · have hgranter := AList.lookup_eq_none.mpr (mt (hsound.granters n) hn)
      have hempty : c'.permissions.lookup n = none := by
        refine (h.empty n ?_).2
        intro e he heq
        rw [List.map_map, List.mem_map] at he
        obtain ⟨d, hd, rfl⟩ := he
        obtain ⟨n', a, -, ha, hd'⟩ := hsound.view_eq hview hd
        simp only [Function.comp_apply, hd'] at heq
        have hn' : n' = n := heq
        exact hn (hn' ▸ mem_accounts_of_lookup ha)
      rw [Contract.permissionsOf, Contract.permissionsOf, hgranter, hempty]

namespace Copied

variable (h : Copied c c')

include h

/-- The copy has no other accounts. -/
theorem root_eq_none (hid : c.rootNode.children.get id = none) : c'.rootNode.children.get id = none := by
  have hroot : (c'.rootNode.children.get id).map NodeValue.content =
      (c.rootNode.children.get id).map NodeValue.content := h.children 0 id
  rwa [hid, Option.map_none, Option.map_eq_none_iff] at hroot

/-- The copy of an account has its balance and its bytes. -/
theorem account_eq (hsound : c.Sound) (id : AccountId) :
    (c'.internalGetAccount id).map (Option.map fun a => (a.storageBalance, a.usedBytes)) =
      (c.internalGetAccount id).map (Option.map fun a => (a.storageBalance, a.usedBytes)) := by
  cases hid : c.rootNode.children.get id with
  | none =>
    rw [internalGetAccount_eq_none.mpr hid, internalGetAccount_eq_none.mpr (h.root_eq_none hid)]
  | some v =>
    obtain ⟨-, n, rfl, -⟩ := hsound.root id v hid
    obtain ⟨a, ha, hrecord⟩ := h.record id n hid
    rw [internalGetAccount_eq_some.mpr ⟨n, hid, accountAt_of_stored ha⟩, internalGetAccount_eq_some.mpr
      ⟨n, (root_get_iff h.children).mpr hid, accountAt_of_stored hrecord⟩]
    rfl

/-- The copy of an account has as much available, if and only if no bytes from a pool have to be paid
for now. -/
theorem available_eq (hcovered : c.Covered host) (hreadable : c.Readable)
    (hid : c.rootNode.children.get id = some (.node n))
    (ha : c.accounts.lookup n = some (Account.stored a)) :
    c'.internalStorageBalanceOf host id = c.internalStorageBalanceOf host id ↔
      a.sharedUsedBytes = 0 ∨ host.storageByteCost = 0 ∨ a.storageBalance ≤
        saturatingMul (a.usedBytes - a.sharedUsedBytes) host.storageByteCost := by
  obtain ⟨a', ha', hrecord⟩ := h.record id n hid
  have hsame := Option.some.inj (ha.symm.trans ha')
  simp only [Account.stored, VAccount.current.injEq, Account.mk.injEq] at hsame
  have hshared := (hcovered n a ha).shared_le_used
  rw [available_of_stored hshared hid ha,
    available_of_stored (Nat.zero_le _) ((root_get_iff h.children).mpr hid) hrecord,
    ← available_eq_iff (hreadable.balance_le n a ha) hshared]
  simp [Account.sharedUsedBytes, Account.new, hsame.1, hsame.2.1]

/-- **The copy** is a migration, if and only if the accounts that have bytes from a pool have nothing
available. -/
theorem migrated_iff_available (hsound : c.Sound) (hcovered : c.Covered host)
    (hreadable : c.Readable) :
    Migrated host c c' ↔ ∀ id account, c.internalGetAccount id = .ok (some account) →
      account.sharedUsedBytes = 0 ∨ host.storageByteCost = 0 ∨ account.storageBalance ≤
        saturatingMul (account.usedBytes - account.sharedUsedBytes) host.storageByteCost := by
  constructor
  · intro hmigrated id account hget
    obtain ⟨n, a, hid, ha, rfl⟩ := hsound.loaded hget
    exact (h.available_eq hcovered hreadable hid ha).mp (hmigrated.available id)
  · intro hpays
    refine ⟨h.nodeCount, h.children, h.account_eq hsound, h.permissions, ?_⟩
    intro id
    cases hid : c.rootNode.children.get id with
    | none =>
      simp only [Contract.internalStorageBalanceOf, internalGetAccount_eq_none.mpr hid,
        internalGetAccount_eq_none.mpr (h.root_eq_none hid)]
    | some v =>
      obtain ⟨-, n, rfl, -⟩ := hsound.root id v hid
      obtain ⟨a, ha, -⟩ := h.record id n hid
      refine (h.available_eq hcovered hreadable hid ha).mpr (hpays id (a.loaded n) ?_)
      exact internalGetAccount_eq_some.mpr ⟨n, hid, accountAt_of_stored ha⟩

end Copied

end Copy

/-! ## Sample migrations -/

def samplePrivate : Env := sampleEnv "social" 0 (Nat.zero_le _)

theorem isPrivate_samplePrivate : IsPrivate samplePrivate := ⟨rfl, by decide, rfl⟩

/-- A contract with an account that pays for itself. -/
def samplePlain : Contract :=
  (system sampleHost).run (.new samplePrivate)
    [sampleLive, sampleDeposit (4 * 10 ^ 21) (by decide)]

theorem samplePool_le : 10 ^ 26 ≤ u128Max := by decide

theorem sampleStorage_le : 10 ^ 22 ≤ u128Max := by decide

/-- An account gets storage from a pool, and makes a deposit. -/
def sampleSharing : List Call :=
  [sampleLive, ⟨sampleEnv "alice" (10 ^ 26) samplePool_le, .sharedStoragePoolDeposit none⟩,
    ⟨sampleEnv "alice" 0 (Nat.zero_le _), .shareStorage "bob" 2000⟩,
    ⟨sampleEnv "bob" (10 ^ 22) sampleStorage_le, .storageDeposit none none⟩]

def sampleShared : Contract :=
  (system sampleHost).run (.new samplePrivate) sampleSharing

/-- The accounts of a contract, in pages of fifty. -/
def sampleViews (c : Contract) : List (AccountId × AccountView) :=
  match c.exportAccounts 50 with
  | .ok views => views
  | .error _ => []

theorem portable_samplePlain : samplePlain.Portable sampleHost := by
  refine ⟨by decide +kernel, ?_, ?_⟩
  · intro n node hlookup
    have hall : ∀ e ∈ samplePlain.nodes.entries, e.2.children.entries.length ≤ u32Max := by
      decide +kernel
    exact hall ⟨n, node⟩ (AList.mem_lookup_iff.mp hlookup)
  · intro id account hget
    have hall : ∀ e ∈ samplePlain.rootNode.children.entries,
        (samplePlain.internalGetAccount e.1).map (Option.map Account.sharedUsedBytes) =
          .ok (some 0) := by
      decide +kernel
    obtain ⟨n, hroot, -⟩ := internalGetAccount_eq_some.mp hget
    have hused := hall _ (get_eq_some.mp hroot)
    rw [hget] at hused
    exact .inl (by simpa [Except.map] using hused)

end UncContracts.Social
