import UncContracts.Social.Moves

/-!
# The storage that a state takes

The host charges for the records of a state. A record has a fixed part and its key, so that its size
depends on the key and on little else: an entry on its value, and an account on the id of its pool.

## Main definitions

* `Layout`: the sizes of records
* `Layout.usage`: the storage that a state takes
* `Layout.host`: a host that charges for records

## Main results

* `Saves.usage`: saving an account leaves the storage that a state takes
* `Layout.usage_insertAccount`, `Layout.usage_opened`: an account takes its record, and a new one its
  key and its node
* `Layout.usage_setPool`: a pool takes its own record
-/

namespace UncContracts.Social

open Foundation

/-- The sizes of records, with their keys. -/
structure Layout where
  /-- The state, without the maps in it. -/
  state : ℕ
  /-- An account, by its pool. -/
  account : Option AccountId → ℕ
  /-- An account from before there was shared storage. -/
  legacyAccount : ℕ
  /-- A node without its entries. -/
  node : ℕ
  entry : String → NodeValue → ℕ
  permission : PermissionKey → Permission → ℕ
  /-- A pool, by its owner. -/
  pool : AccountId → ℕ

namespace Layout

variable (layout : Layout)

def accountBytes : VAccount → ℕ
  | .v0 _ => layout.legacyAccount
  | .current account => layout.account (account.sharedStorage.map AccountSharedStorage.poolId)

def nodeBytes (node : Node) : ℕ := layout.node + node.children.total layout.entry

/-- The storage that a state takes. -/
def usage (c : Contract) : ℕ :=
  layout.state + c.accounts.total layout.accountBytes + c.rootNode.children.total layout.entry +
    c.nodes.total layout.nodeBytes +
    c.permissions.total (UnorderedMap.total layout.permission) +
    c.sharedStoragePools.keyTotal layout.pool

/-- A host that charges for records. -/
def host (storageByteCost : ℕ) : Host := ⟨layout.usage, storageByteCost⟩

end Layout

section Usage

variable {host : Host} {c c' : Contract} {account account' : Account} {r : VAccount}
  {pools pools' : Map AccountId SharedStoragePool} {o o' : Option AccountSharedStorage}

/-- Settling leaves the pools that there are, and the pool of the account. -/
theorem Settled.poolId (h : Settled host pools o pools' o') :
    o'.map AccountSharedStorage.poolId = o.map AccountSharedStorage.poolId := by
  cases h with
  | same s => rfl
  | charged hpool => rfl
  | released hpool => rfl

theorem mem_pools_of_lookup {id : AccountId} {pool : SharedStoragePool}
    (h : pools.lookup id = some pool) : id ∈ pools :=
  AList.lookup_isSome.mp (Option.isSome_of_eq_some h)

/-- Writing a pool that there is leaves the owners of pools. -/
theorem keyTotal_insert_of_lookup {id : AccountId} {pool pool' : SharedStoragePool}
    (f : AccountId → ℕ) (hpool : pools.lookup id = some pool) :
    Map.keyTotal f (pools.insert id pool') = Map.keyTotal f pools :=
  Map.keyTotal_insert_of_mem f (mem_pools_of_lookup hpool) _

theorem Settled.keyTotal (h : Settled host pools o pools' o') (f : AccountId → ℕ) :
    pools'.keyTotal f = pools.keyTotal f := by
  cases h with
  | same s => rfl
  | charged hpool => exact keyTotal_insert_of_lookup f hpool
  | released hpool => exact keyTotal_insert_of_lookup f hpool

/-- **Saving an account** leaves the storage that a state takes, if there is a record of it with the
same pool. -/
theorem Saves.usage (layout : Layout) (h : Saves host c account c' account')
    (hr : c.accounts.lookup account.nodeId = some r)
    (hbytes : layout.accountBytes r = layout.accountBytes account.stored) :
    layout.usage c' = layout.usage c := by
  have htotal : Map.total layout.accountBytes (c.accounts.insert account.nodeId account'.stored) =
      Map.total layout.accountBytes c.accounts := by
    have hsum := Map.total_insert layout.accountBytes c.accounts account.nodeId account'.stored
    have hsame : layout.accountBytes account'.stored = layout.accountBytes account.stored :=
      congrArg layout.account h.settled.poolId
    rw [Map.amount_of_lookup hr, hbytes, hsame] at hsum
    exact Nat.add_right_cancel hsum
  rw [h.frame]
  simp only [Layout.usage, htotal, h.settled.keyTotal]

/-- The record of an account takes the place of the one before. -/
theorem Layout.usage_insertAccount (layout : Layout) (c : Contract) (n : NodeId) (r : VAccount) :
    layout.usage { c with accounts := c.accounts.insert n r } + c.accounts.amount layout.accountBytes n =
      layout.usage c + layout.accountBytes r := by
  have hsum := Map.total_insert layout.accountBytes c.accounts n r
  simp only [Layout.usage]
  omega

/-- A new account takes its record, its key and its node, in the place of what there was. -/
theorem Layout.usage_opened (layout : Layout) (c : Contract) (env : Env) {id : AccountId}
    (account : Account) (hnew : c.rootNode.children.get id = none) :
    layout.usage (c.opened env id account) + c.accounts.amount layout.accountBytes account.nodeId +
        c.nodes.amount layout.nodeBytes account.nodeId =
      layout.usage c + layout.account (account.sharedStorage.map AccountSharedStorage.poolId) +
        layout.entry id (.node account.nodeId) + layout.node := by
  have haccounts := Map.total_insert layout.accountBytes c.accounts account.nodeId
    { Account.new account.nodeId with sharedStorage := account.sharedStorage }.stored
  have hnodes := Map.total_insert layout.nodeBytes c.nodes account.nodeId
    { nodeId := 0, blockHeight := env.blockHeight, children := .empty }
  have hrecord : layout.accountBytes
      { Account.new account.nodeId with sharedStorage := account.sharedStorage }.stored =
        layout.account (account.sharedStorage.map AccountSharedStorage.poolId) := rfl
  have hempty : layout.nodeBytes { nodeId := 0, blockHeight := env.blockHeight, children := .empty } =
      layout.node := rfl
  have hroot := UnorderedMap.total_insert_of_none layout.entry hnew (v := .node account.nodeId)
  rw [hrecord] at haccounts
  rw [hempty] at hnodes
  simp only [Layout.usage, Contract.opened, Account.new] at haccounts ⊢
  omega

/-- A pool takes its own record. -/
theorem Layout.usage_setPool (layout : Layout) (c : Contract) (id : AccountId)
    (pool : SharedStoragePool) : layout.usage (c.internalSetSharedStoragePool id pool) =
      layout.usage c + if id ∈ c.sharedStoragePools then 0 else layout.pool id := by
  simp only [Layout.usage, Contract.internalSetSharedStoragePool]
  split
  · next hmem => rw [Map.keyTotal_insert_of_mem layout.pool hmem, Nat.add_zero]
  · next hmem =>
    rw [Map.keyTotal_insert_of_notMem layout.pool hmem]
    omega

end Usage

/-- Every record takes a hundred bytes. -/
def sampleLayout : Layout where
  state := 100
  account _ := 100
  legacyAccount := 100
  node := 100
  entry _ _ := 100
  permission _ _ := 100
  pool _ := 100

end UncContracts.Social
