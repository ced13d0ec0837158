import UncContracts.Social.Types

/-!
# Storage of the social contract

How the nodes, the accounts and the shared pools are read and written. An account is saved with the
bytes that its tracker has seen: more bytes are taken from its shared pool as far as they reach and
must be covered by its balance otherwise, and bytes that are released are given back to the pool
first.

## Main definitions

* `Contract.internalGetNode`, `Contract.internalSetNode`: the nodes
* `Contract.internalGetAccount`, `Contract.internalSetAccount`: the accounts
* `Contract.internalCreateAccount`, `Contract.internalCreateAccountFromSharedStorage`: new accounts
* `Contract.internalStorageWithdraw`: withdrawals of what an account has available
-/

namespace UncContracts.Social

open Foundation

/-- The panic of `Option::unwrap`. -/
def UNWRAP_NONE : String := "called `Option::unwrap()` on a `None` value"

structure StorageBalance where
  total : ℕ
  available : ℕ
  deriving DecidableEq, Repr

namespace SharedStoragePool

def new : SharedStoragePool := { storageBalance := 0, usedBytes := 0, sharedBytes := 0 }

end SharedStoragePool

namespace Contract

/-- The contract without accounts, before it goes live. -/
def new (env : Env) : Contract where
  accounts := ∅
  permissions := ∅
  rootNode := { nodeId := 0, blockHeight := env.blockHeight, children := .empty }
  nodes := ∅
  nodeCount := 1
  status := .genesis
  sharedStoragePools := ∅

variable (host : Host) (env : Env) (c : Contract)

def createNodeId : Exec (Contract × NodeId) := do
  let nodeCount ← checkedAdd u32Max c.nodeCount 1
  return ({ c with nodeCount }, c.nodeCount)

def assertLive : Exec Unit := ensure (c.status = .live) "The contract status is not Live"

/-! ## Nodes -/

/-- A stored node, with its id set again. -/
def internalGetNode (nodeId : NodeId) : Option Node :=
  (c.nodes.lookup nodeId).map fun node => { node with nodeId }

def internalUnwrapNode (nodeId : NodeId) : Exec Node :=
  expect (c.internalGetNode nodeId) "Node is missing"

/-- Saves a node at the block height. Its id is not stored. -/
def internalSetNode (node : Node) : Contract :=
  let stored := { node with nodeId := 0, blockHeight := env.blockHeight }
  { c with nodes := c.nodes.insert node.nodeId stored }

/-! ## Pools -/

def internalUnwrapSharedStoragePool (ownerId : AccountId) : Exec SharedStoragePool :=
  expect (c.sharedStoragePools.lookup ownerId) "Shared storage pool not found"

def internalSetSharedStoragePool (ownerId : AccountId) (pool : SharedStoragePool) : Contract :=
  { c with sharedStoragePools := c.sharedStoragePools.insert ownerId pool }

/-! ## Accounts -/

/-- The account that is stored under a node id. -/
def accountAt (nodeId : NodeId) : Exec Account := do
  let record ← expect (c.accounts.lookup nodeId) UNWRAP_NONE
  let account ← record.toAccount
  return { account with nodeId }

def internalGetAccount (accountId : AccountId) : Exec (Option Account) :=
  match c.rootNode.children.get accountId with
  | none => return none
  | some (.node nodeId) => do
    let account ← c.accountAt nodeId
    return some account
  | some _ => .error "Unexpected account key. The value is not a node."

def internalUnwrapAccount (accountId : AccountId) : Exec Account := do
  let account ← c.internalGetAccount accountId
  expect account "The account doesn't exist"

/-- Takes bytes from the shared pool of an account, as far as they reach. -/
def chargePool (account : Account) (extraBytesUsed : ℕ) : Exec (Contract × Account) :=
  match account.sharedStorage with
  | none => return (c, account)
  | some sharedStorage => do
    let pool ← c.internalUnwrapSharedStoragePool sharedStorage.poolId
    let availableBytes ← sharedStorage.availableBytes host pool
    let poolBytes := min availableBytes extraBytesUsed
    if 0 < poolBytes then
      let poolUsedBytes ← checkedAdd u64Max pool.usedBytes poolBytes
      let usedBytes ← checkedAdd u64Max sharedStorage.usedBytes poolBytes
      return (c.internalSetSharedStoragePool sharedStorage.poolId
          { pool with usedBytes := poolUsedBytes },
        { account with sharedStorage := some { sharedStorage with usedBytes } })
    else return (c, account)

/-- Gives bytes back to the shared pool of an account, as far as they came from it. -/
def releasePool (account : Account) (bytesReleased : ℕ) : Exec (Contract × Account) :=
  match account.sharedStorage with
  | none => return (c, account)
  | some sharedStorage => do
    let poolBytes := min sharedStorage.usedBytes bytesReleased
    let account := { account with
      sharedStorage := some { sharedStorage with usedBytes := sharedStorage.usedBytes - poolBytes } }
    if 0 < poolBytes then
      let pool ← c.internalUnwrapSharedStoragePool sharedStorage.poolId
      ensure (poolBytes ≤ pool.usedBytes) "Internal storage accounting bug"
      return (c.internalSetSharedStoragePool sharedStorage.poolId
        { pool with usedBytes := pool.usedBytes - poolBytes }, account)
    else return (c, account)

/-- Settles the bytes that the tracker of an account has seen. -/
def settle (account : Account) : Exec (Contract × Account) :=
  let bytesAdded := account.storageTracker.bytesAdded
  let bytesReleased := account.storageTracker.bytesReleased
  if bytesReleased < bytesAdded then do
    let usedBytes ← checkedAdd u64Max account.usedBytes (bytesAdded - bytesReleased)
    let (c, account) ← c.chargePool host { account with usedBytes } (bytesAdded - bytesReleased)
    account.assertStorageCovered host
    return (c, account)
  else if bytesAdded < bytesReleased then do
    ensure (bytesReleased - bytesAdded ≤ account.usedBytes) "Internal storage accounting bug"
    let (c, account) ← c.releasePool account (bytesReleased - bytesAdded)
    return (c, { account with usedBytes := account.usedBytes - (bytesReleased - bytesAdded) })
  else return (c, account)

/-- Saves an account, and says whether there was a record of it. -/
def internalSetAccount (account : Account) : Exec (Contract × Bool) := do
  let (c, account) ← c.settle host account
  -- The tracker is dropped with its bytes cleared.
  let storageTracker := { account.storageTracker with bytesReleased := 0, bytesAdded := 0 }
  storageTracker.drop
  return ({ c with accounts := c.accounts.insert account.nodeId account.stored },
    (c.accounts.lookup account.nodeId).isSome)

/-- Saves the node of a new account, its key and a record, inside the window of its tracker. -/
def internalInitialSetAccount (accountId : AccountId) (account : Account) : Exec Contract := do
  let storageTracker ← account.storageTracker.start (host.storageUsage c)
  let node ← Node.new env account.nodeId none
  let c := c.internalSetNode env node
  let c := { c with rootNode := { c.rootNode with
    blockHeight := env.blockHeight
    children := c.rootNode.children.insert accountId (.node account.nodeId) } }
  let tempAccount := { Account.new account.nodeId with sharedStorage := account.sharedStorage }
  let (c, existed) ← c.internalSetAccount host tempAccount
  ensure (existed = false) "Internal bug. Account already exists."
  let storageTracker ← storageTracker.stop (host.storageUsage c)
  let (c, _) ← c.internalSetAccount host { account with storageTracker }
  return c

def internalCreateAccount (accountId : AccountId) (storageDeposit : ℕ) (registrationOnly : Bool) :
    Exec (Contract × List Transfer) := do
  let minBalance := 0
  ensure (minBalance ≤ storageDeposit)
    "The attached deposit is less than the minimum storage balance"
  let (c, nodeId) ← c.createNodeId
  let refund := storageDeposit - minBalance
  let transfers := if registrationOnly ∧ 0 < refund then [⟨env.predecessorAccountId, refund⟩] else []
  let storageBalance := if registrationOnly then minBalance else storageDeposit
  let c ← c.internalInitialSetAccount host env accountId { Account.new nodeId with storageBalance }
  return (c, transfers)

def internalCreateAccountFromSharedStorage (accountId : AccountId) (maxBytes : ℕ)
    (poolId : AccountId) : Exec Contract := do
  let sharedStorage : AccountSharedStorage := { maxBytes, usedBytes := 0, poolId }
  ensure (MIN_STORAGE_BYTES ≤ maxBytes) "The max bytes is less than the minimum storage required"
  let pool ← c.internalUnwrapSharedStoragePool poolId
  let availableBytes ← sharedStorage.availableBytes host pool
  ensure (MIN_STORAGE_BYTES ≤ availableBytes)
    "Not enough storage available in the shared storage pool to create an account"
  let (c, nodeId) ← c.createNodeId
  c.internalInitialSetAccount host env accountId
    { Account.new nodeId with sharedStorage := some sharedStorage }

/-- The account with a deposit added to its balance, created if it does not exist. -/
def internalUnwrapAccountOrCreate (accountId : AccountId) (storageDeposit : ℕ) :
    Exec (Contract × List Transfer × Account) := do
  ensure (isValidAccountId accountId = true) "Invalid account id"
  match ← c.internalGetAccount accountId with
  | some account =>
    return (c, [], { account with
      storageBalance := saturatingAdd account.storageBalance storageDeposit })
  | none => do
    let (c, transfers) ← c.internalCreateAccount host env accountId storageDeposit false
    let account ← c.internalUnwrapAccount accountId
    return (c, transfers, account)

/-! ## Balances -/

def internalStorageBalanceOf (accountId : AccountId) : Exec (Option StorageBalance) := do
  match ← c.internalGetAccount accountId with
  | none => return none
  | some account => do
    let ownBytes ← account.ownBytes
    return some {
      total := account.storageBalance
      available := account.storageBalance - saturatingMul ownBytes host.storageByteCost }

/-- Withdraws from an account to the predecessor, who is allowed to. -/
def internalStorageWithdraw (withdrawFrom : AccountId) (amount : Option ℕ) :
    Exec (Contract × List Transfer × StorageBalance) := do
  match ← c.internalStorageBalanceOf host withdrawFrom with
  | none => .error ("The account " ++ withdrawFrom ++ " is not registered")
  | some storageBalance => do
    let amount := amount.getD storageBalance.available
    ensure (amount ≤ storageBalance.available)
      "The amount is greater than the available storage balance"
    if 0 < amount then
      let account ← c.internalUnwrapAccount withdrawFrom
      let (c, _) ← c.internalSetAccount host
        { account with storageBalance := account.storageBalance - amount }
      let balance ← c.internalStorageBalanceOf host withdrawFrom
      let balance ← expect balance UNWRAP_NONE
      return (c, [⟨env.predecessorAccountId, amount⟩], balance)
    else
      let balance ← c.internalStorageBalanceOf host withdrawFrom
      let balance ← expect balance UNWRAP_NONE
      return (c, [], balance)

/-! ## Permissions -/

/-- The permissions that the account of a node grants. -/
def permissionsOf (nodeId : NodeId) : UnorderedMap PermissionKey Permission :=
  (c.permissions.lookup nodeId).getD .empty

/-- The nodes that the predecessor or the signer's key may write below. -/
def internalGetWriteableNodeIds (account : Account) : Finset NodeId :=
  let nodeIds key := match (c.permissionsOf account.nodeId).get key with
    | some (.granted nodeIds) => nodeIds
    | none => ∅
  nodeIds (.accountId env.predecessorAccountId) ∪ nodeIds (.signerPublicKey env.signerAccountPk)

def internalSetPermission (account : Account) (permissionKey : PermissionKey)
    (permission : Permission) : Exec (Contract × Account) := do
  let storageTracker ← account.storageTracker.start (host.storageUsage c)
  let permissions := c.permissionsOf account.nodeId
  let permissions := if permission.isEmpty then permissions.remove permissionKey
    else permissions.insert permissionKey permission
  let c := { c with permissions := c.permissions.insert account.nodeId permissions }
  let storageTracker ← storageTracker.stop (host.storageUsage c)
  return (c, { account with storageTracker })

end Contract

end UncContracts.Social
