import UncContracts.Foundation.Machine
import UncContracts.Social.Storage

/-!
# The methods of the social contract

The public methods that are no part of the genesis: writing data below the accounts that it names,
granting permissions to write, deposits of storage and shared storage.

## Main definitions

* `Contract.recursiveSet`: writes a JSON value below a node
* `Contract.set`, `Contract.grantWritePermission`, `Contract.storageDeposit`,
  `Contract.storageWithdraw`, `Contract.sharedStoragePoolDeposit`, `Contract.shareStorage`: the
  methods
* `system`: the contract as a machine
-/

namespace UncContracts.Social

open Foundation

structure SetOptions where
  refundUnusedDeposit : Option Bool
  deriving DecidableEq, Repr

/-- An entry under a key of a node in memory. -/
def Node.insertChild (node : Node) (key : String) (value : NodeValue) : Node :=
  { node with children := node.children.insert key value }

namespace Contract

/-! ## Writing data -/

mutual

/-- Writes a value below a node, and saves the node. -/
def recursiveSet (env : Env) (c : Contract) (node : Node) (value : Json) (writeApproved : Bool)
    (writableNodeIds : Finset NodeId) : Exec Contract :=
  let writeApproved := writeApproved || decide (node.nodeId ∈ writableNodeIds)
  match value with
  | .object obj => do
    let (c, node) ← setFields env c node obj writeApproved writableNodeIds
    return c.internalSetNode env node
  | .string s => do
    ensure (writeApproved = true) ERR_PERMISSION_DENIED
    let node ← node.set env EMPTY_KEY (.string s)
    return c.internalSetNode env node
  | .null => do
    ensure (writeApproved = true) ERR_PERMISSION_DENIED
    let node ← node.set env EMPTY_KEY .null
    return c.internalSetNode env node
  | _ => .error "The JSON value is not a string, a null or an object"

/-- Writes the fields of an object below a node in memory. -/
def setFields (env : Env) (c : Contract) (node : Node) (obj : List (String × Json))
    (writeApproved : Bool) (writableNodeIds : Finset NodeId) : Exec (Contract × Node) :=
  match obj with
  | [] => return (c, node)
  | (key, value) :: obj => do
    assertKeyValid key
    let (c, node) ← (match node.children.get key with
      | none => do
        ensure (writeApproved = true) ERR_PERMISSION_DENIED
        if value.isString || value.isNull then
          let node ← node.set env key value
          pure (c, node)
        else
          let (c, nodeId) ← c.createNodeId
          let child ← Node.new env nodeId none
          let c ← recursiveSet env c child value writeApproved writableNodeIds
          pure (c, node.insertChild key (.node nodeId))
      | some (.node nodeId) => do
        let child ← c.internalUnwrapNode nodeId
        let c ← recursiveSet env c child value writeApproved writableNodeIds
        pure (c, node)
      | some oldNodeValue => do
        ensure (writeApproved = true) ERR_PERMISSION_DENIED
        if value.isString || value.isNull then
          let node ← node.set env key value
          pure (c, node)
        else
          ensure (key ≠ EMPTY_KEY) "The empty key's value should be a string or null"
          let (c, nodeId) ← c.createNodeId
          let child ← Node.new env nodeId (some oldNodeValue)
          let c ← recursiveSet env c child value writeApproved writableNodeIds
          pure (c, node.insertChild key (.node nodeId)) : Exec (Contract × Node))
    setFields env c node obj writeApproved writableNodeIds

end

variable (host : Host) (env : Env) (c : Contract)

/-- The write of the data of an account, inside the window of its tracker. -/
def setAccount (key : String) (value : Json) (attachedBalance : ℕ) :
    Exec (Contract × List Transfer) := do
  let (c, transfers, account) ← c.internalUnwrapAccountOrCreate host env key attachedBalance
  let writeApproved := decide (key = env.predecessorAccountId)
  let writableNodeIds := if writeApproved then ∅ else c.internalGetWriteableNodeIds env account
  let node ← c.internalUnwrapNode account.nodeId
  let storageTracker ← account.storageTracker.start (host.storageUsage c)
  let c ← recursiveSet env c node value writeApproved writableNodeIds
  let storageTracker ← storageTracker.stop (host.storageUsage c)
  let (c, _) ← c.internalSetAccount host { account with storageTracker }
  return (c, transfers)

/-- The part of a deposit that is not used goes back, and no more than was attached. -/
def refundUnused (options : SetOptions) (key : String) (attachedBalance : ℕ) :
    Exec (Contract × List Transfer) := do
  if options.refundUnusedDeposit.getD false ∧ 0 < attachedBalance then
    let accountId ← expect (parseAccountId key) "key is valid account id"
    match ← c.internalStorageBalanceOf host accountId with
    | none => return (c, [])
    | some balance => do
      let refund := min balance.available attachedBalance
      let (c, transfers, _) ← c.internalStorageWithdraw host env accountId (some refund)
      return (c, transfers)
  else return (c, [])

/-- The accounts of the data in order. The first one receives all the deposit, and what is left of
it is returned. -/
def setAccounts (options : SetOptions) :
    Contract → List (String × Json) → ℕ → Exec (Contract × List Transfer × ℕ)
  | c, [], attachedBalance => return (c, [], attachedBalance)
  | c, (key, value) :: data, attachedBalance => do
    let (c, created) ← c.setAccount host env key value attachedBalance
    let (c, refunded) ← c.refundUnused host env options key attachedBalance
    let (c, transfers, attachedBalance) ← setAccounts options c data 0
    return (c, created ++ refunded ++ transfers, attachedBalance)

def set (data : Json) (options : Option SetOptions) : Exec (Contract × List Transfer) := do
  c.assertLive
  let options := options.getD { refundUnusedDeposit := none }
  let data ← expect data.asObject "Data is not a JSON object"
  let (c, transfers, attachedBalance) ← setAccounts host env options c data env.attachedDeposit
  ensure (attachedBalance = 0) "The attached deposit could not be added to any account"
  return (c, transfers)

/-! ## Permissions -/

/-- Walks down a path from a node in memory, and makes the nodes that are missing. A node is saved
when the walk leaves it, and the last one is returned. -/
def walk (env : Env) : Contract → Node → List String → Exec (Contract × Node)
  | c, node, [] => return (c, node)
  | c, node, key :: path => do
    assertKeyValid key
    match node.children.get key with
    | none => do
      let (c, nodeId) ← c.createNodeId
      let child ← Node.new env nodeId none
      walk env (c.internalSetNode env (node.insertChild key (.node nodeId))) child path
    | some (.node nodeId) => do
      let child ← c.internalUnwrapNode nodeId
      walk env (c.internalSetNode env node) child path
    | some nodeValue => do
      ensure (key ≠ EMPTY_KEY) "The empty key's value should be a string"
      let (c, nodeId) ← c.createNodeId
      let child ← Node.new env nodeId (some nodeValue)
      walk env (c.internalSetNode env (node.insertChild key (.node nodeId))) child path

/-- The node of a key that is granted, made inside the window of the account's tracker. -/
def grantKey (accountId : AccountId) (account : Account) (key : String) :
    Exec (Contract × Account × NodeId) := do
  let storageTracker ← account.storageTracker.start (host.storageUsage c)
  let path := splitPath key
  ensure (path ≠ []) "The key is empty"
  ensure (path.head? = some accountId) "The path should start with the expected account_id"
  let node ← c.internalUnwrapNode account.nodeId
  let (c, node) ← walk env c node path.tail
  let c := c.internalSetNode env node
  let storageTracker ← storageTracker.stop (host.storageUsage c)
  return (c, { account with storageTracker }, node.nodeId)

/-- The nodes of the keys that are granted. -/
def grantKeys (accountId : AccountId) :
    Contract → Account → List String → Finset NodeId → Exec (Contract × Account × Finset NodeId)
  | c, account, [], nodeIds => return (c, account, nodeIds)
  | c, account, key :: keys, nodeIds => do
    let (c, account, nodeId) ← c.grantKey host env accountId account key
    grantKeys accountId c account keys (insert nodeId nodeIds)

/-- Whom a permission is granted to: an account or a key, and not both. -/
def permissionKeyOf (predecessorId : Option AccountId) (publicKey : Option PublicKey) :
    Exec PermissionKey :=
  match predecessorId, publicKey with
  | some _, some _ => .error "Can't supply both account_id and a public_key"
  | some accountId, none => return .accountId accountId
  | none, some publicKey => return .signerPublicKey publicKey
  | none, none => .error "Neither account_id or public_key is provided"

def grantWritePermission (predecessorId : Option AccountId) (publicKey : Option PublicKey)
    (keys : List String) : Exec (Contract × List Transfer) := do
  c.assertLive
  ensure (0 < env.attachedDeposit) "Requires at least 1 atto"
  let permissionKey ← permissionKeyOf predecessorId publicKey
  let accountId := env.predecessorAccountId
  let (c, transfers, account) ←
    c.internalUnwrapAccountOrCreate host env accountId env.attachedDeposit
  let .granted nodeIds := ((c.permissionsOf account.nodeId).get permissionKey).getD (.granted ∅)
  let (c, account, nodeIds) ← grantKeys host env accountId c account keys nodeIds
  let (c, account) ← c.internalSetPermission host account permissionKey (.granted nodeIds)
  let (c, _) ← c.internalSetAccount host account
  return (c, transfers)

/-! ## Deposits -/

def storageDeposit (accountId : Option AccountId) (registrationOnly : Option Bool) :
    Exec (Contract × List Transfer × StorageBalance) := do
  c.assertLive
  let accountId := accountId.getD env.predecessorAccountId
  let registrationOnly := registrationOnly.getD false
  let account ← c.internalGetAccount accountId
  let (c, transfers) ← (match account with
    | some account => do
      if registrationOnly ∧ 0 < env.attachedDeposit then
        pure (c, [⟨env.predecessorAccountId, env.attachedDeposit⟩])
      else
        let storageBalance := saturatingAdd account.storageBalance env.attachedDeposit
        let (c, _) ← c.internalSetAccount host { account with storageBalance }
        pure (c, [])
    | none => c.internalCreateAccount host env accountId env.attachedDeposit registrationOnly
    : Exec (Contract × List Transfer))
  let balance ← c.internalStorageBalanceOf host accountId
  let balance ← expect balance UNWRAP_NONE
  return (c, transfers, balance)

def storageWithdraw (amount : Option ℕ) : Exec (Contract × List Transfer × StorageBalance) := do
  c.assertLive
  env.assertOneAtto
  c.internalStorageWithdraw host env env.predecessorAccountId amount

def storageUnregister : Exec Contract := do
  c.assertLive
  .error "The account can't be unregistered"

/-! ## Shared storage -/

def sharedStoragePoolDeposit (ownerId : Option AccountId) : Exec Contract := do
  let ownerId := ownerId.getD env.predecessorAccountId
  ensure (MINIMUM_SHARED_STORAGE_BALANCE ≤ env.attachedDeposit)
    "Attached deposit is less than the minimum amount 100.00 UNC"
  let pool := (c.sharedStoragePools.lookup ownerId).getD .new
  let storageBalance := saturatingAdd pool.storageBalance env.attachedDeposit
  let storageTracker ← ({} : StorageTracker).start (host.storageUsage c)
  let c := c.internalSetSharedStoragePool ownerId { pool with storageBalance }
  let storageTracker ← storageTracker.stop (host.storageUsage c)
  let bytesAdded := storageTracker.bytesAdded
  let bytesReleased := storageTracker.bytesReleased
  let c ← (if bytesReleased < bytesAdded then do
      let pool ← c.internalUnwrapSharedStoragePool ownerId
      let usedBytes ← checkedAdd u64Max pool.usedBytes (bytesAdded - bytesReleased)
      pure (c.internalSetSharedStoragePool ownerId { pool with usedBytes })
    else pure c : Exec Contract)
  let storageTracker ← storageTracker.clear
  storageTracker.drop
  return c

/-- The shared storage of an account that has some already, from the pool that shares more with it
or from another one. -/
def shareMore (poolId : AccountId) (pool : SharedStoragePool) (current : AccountSharedStorage)
    (maxBytes : ℕ) : Exec (Contract × AccountSharedStorage) := do
  ensure (current.usedBytes ≤ maxBytes) "Max bytes must be greater than or equal to used bytes"
  if current.poolId = poolId then
    ensure (current.maxBytes < maxBytes) "Max bytes must be greater than the current max bytes"
    let moreBytes ← checkedSub maxBytes current.maxBytes
    let sharedBytes ← checkedAdd u64Max pool.sharedBytes moreBytes
    return (c.internalSetSharedStoragePool poolId { pool with sharedBytes },
      { maxBytes, usedBytes := current.usedBytes, poolId })
  else
    let currentPool ← c.internalUnwrapSharedStoragePool current.poolId
    let currentAvailableBytes ← current.availableBytes host currentPool
    let newAvailableBytes ←
      ({ maxBytes, usedBytes := 0, poolId } : AccountSharedStorage).availableBytes host pool
    let bytesNeeded ← checkedAdd u64Max current.usedBytes currentAvailableBytes
    let bytesNeeded ← checkedAdd u64Max bytesNeeded MIN_STORAGE_BYTES
    ensure (bytesNeeded ≤ newAvailableBytes) "The difference between the new available bytes and the current available bytes must be at least 2000"
    let currentUsedBytes ← checkedSub currentPool.usedBytes current.usedBytes
    let currentSharedBytes ← checkedSub currentPool.sharedBytes current.maxBytes
    let c := c.internalSetSharedStoragePool current.poolId
      { currentPool with usedBytes := currentUsedBytes, sharedBytes := currentSharedBytes }
    let usedBytes ← checkedAdd u64Max pool.usedBytes current.usedBytes
    let sharedBytes ← checkedAdd u64Max pool.sharedBytes maxBytes
    return (c.internalSetSharedStoragePool poolId { pool with usedBytes, sharedBytes },
      { maxBytes, usedBytes := current.usedBytes, poolId })

def shareStorage (accountId : AccountId) (maxBytes : ℕ) : Exec Contract := do
  ensure (MIN_STORAGE_BYTES ≤ maxBytes) "Max bytes must be at least 2000"
  let poolId := env.predecessorAccountId
  let account ← c.internalGetAccount accountId
  let pool ← c.internalUnwrapSharedStoragePool poolId
  let availableBytes ← pool.availableBytes host
  ensure (maxBytes ≤ availableBytes) "Not enough storage available in the shared storage pool"
  match account with
  | some account => do
    let (c, sharedStorage) ← (match account.sharedStorage with
      | some current => c.shareMore host poolId pool current maxBytes
      | none => do
        let sharedBytes ← checkedAdd u64Max pool.sharedBytes maxBytes
        pure (c.internalSetSharedStoragePool poolId { pool with sharedBytes },
          { maxBytes, usedBytes := 0, poolId }) : Exec (Contract × AccountSharedStorage))
    -- The account is saved twice, to measure the change of its record.
    let storageTracker ← ({} : StorageTracker).start (host.storageUsage c)
    let (c, _) ← c.internalSetAccount host { account with sharedStorage := some sharedStorage }
    let storageTracker ← storageTracker.stop (host.storageUsage c)
    let account ← c.internalUnwrapAccount accountId
    let (accountTracker, storageTracker) ← account.storageTracker.consume storageTracker
    let (c, _) ← c.internalSetAccount host { account with storageTracker := accountTracker }
    storageTracker.drop
    return c
  | none => do
    let sharedBytes ← checkedAdd u64Max pool.sharedBytes maxBytes
    let c := c.internalSetSharedStoragePool poolId { pool with sharedBytes }
    c.internalCreateAccountFromSharedStorage host env accountId maxBytes poolId

/-! ## The status -/

def setStatus (status : ContractStatus) : Exec Contract := do
  ensure (env.predecessorAccountId = env.currentAccountId) "Method set_status is private"
  ensure (status ≠ .genesis) "The status can't be set to Genesis"
  return { c with status }

end Contract

/-- The public methods that are no part of the genesis. -/
inductive Method
  | set (data : Json) (options : Option SetOptions)
  | grantWritePermission (predecessorId : Option AccountId) (publicKey : Option PublicKey)
      (keys : List String)
  | storageDeposit (accountId : Option AccountId) (registrationOnly : Option Bool)
  | storageWithdraw (amount : Option ℕ)
  | storageUnregister (force : Option Bool)
  | sharedStoragePoolDeposit (ownerId : Option AccountId)
  | shareStorage (accountId : AccountId) (maxBytes : ℕ)
  | setStatus (status : ContractStatus)
  deriving Repr

/-- The methods that take a deposit. -/
def Method.isPayable : Method → Bool
  | shareStorage _ _ | setStatus _ => false
  | _ => true

/-- The account ids among the arguments, which are parsed as such. -/
def Method.accountIds : Method → List AccountId
  | grantWritePermission predecessorId _ _ => predecessorId.toList
  | storageDeposit accountId _ => accountId.toList
  | sharedStoragePoolDeposit ownerId => ownerId.toList
  | shareStorage accountId _ => [accountId]
  | _ => []

/-- A call of a public method. The id of the caller is valid, too. -/
def Contract.call (host : Host) (env : Env) (c : Contract) (method : Method) :
    Exec (Contract × List Transfer) := do
  ensure (∀ id ∈ env.predecessorAccountId :: method.accountIds, isValidAccountId id = true)
    "the account ID is invalid"
  ensure (env.attachedDeposit = 0 ∨ method.isPayable = true) "Method doesn't accept deposit"
  match method with
  | .set data options => c.set host env data options
  | .grantWritePermission predecessorId publicKey keys =>
    c.grantWritePermission host env predecessorId publicKey keys
  | .storageDeposit accountId registrationOnly => do
    let (c, transfers, _) ← c.storageDeposit host env accountId registrationOnly
    return (c, transfers)
  | .storageWithdraw amount => do
    let (c, transfers, _) ← c.storageWithdraw host env amount
    return (c, transfers)
  | .storageUnregister _ => do
    let c ← c.storageUnregister
    return (c, [])
  | .sharedStoragePoolDeposit ownerId => do
    let c ← c.sharedStoragePoolDeposit host env ownerId
    return (c, [])
  | .shareStorage accountId maxBytes => do
    let c ← c.shareStorage host env accountId maxBytes
    return (c, [])
  | .setStatus status => do
    let c ← c.setStatus env status
    return (c, [])

/-- A call and the environment that it is made in. -/
structure Call where
  env : Env
  method : Method

/-- The contract as a machine. A call that panics is taken back. -/
def system (host : Host) : Machine Contract Call String where
  step c call := do
    let (c, _) ← c.call host call.env call.method
    return c

end UncContracts.Social
