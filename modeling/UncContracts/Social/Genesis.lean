import Mathlib.Data.List.Intervals
import UncContracts.Social.Methods

/-!
# The genesis of the social contract

A contract that is not live yet can be filled from another one. The nodes and the accounts are read
from the old contract page by page, and written to the new one in batches, by methods that only the
contract itself may call.

## Main definitions

* `Contract.getNodes`, `Contract.getAccounts`: the views that return a page
* `PartialNode`, `PartialAccount`: what a batch holds of a node and of an account
* `Contract.genesisInitNodeCount`, `Contract.genesisInitNodes`, `Contract.genesisInitAccounts`: the
  methods that fill a contract
* `upgradable`: the contract as a machine, with these methods
-/

namespace UncContracts.Social

open Foundation

/-- The panic of `Result::unwrap`. -/
def UNWRAP_ERR : String := "called `Result::unwrap()` on an `Err` value"

/-- The panic of `unreachable!`. -/
def UNREACHABLE : String := "internal error: entered unreachable code"

structure PartialNode where
  nodeId : NodeId
  blockHeight : ℕ
  children : List (String × NodeValue)
  fromIndex : ℕ
  numChildren : ℕ
  deriving DecidableEq, Repr

structure PartialAccount where
  storageBalance : ℕ
  usedBytes : ℕ
  permissions : List (PermissionKey × Permission)
  nodeId : NodeId
  deriving DecidableEq

/-- An account in a view comes with its permissions. -/
abbrev AccountView := Account × UnorderedMap PermissionKey Permission

/-- The account that is read from the JSON of a view. The shared storage has no field to go to. -/
def PartialAccount.ofView (view : AccountView) : PartialAccount where
  storageBalance := view.1.storageBalance
  usedBytes := view.1.usedBytes
  permissions := view.2.entries
  nodeId := view.1.nodeId

/-! ## The views -/

/-- The entries of a node from an index up to a limit. -/
def partialNodeView (node : Node) (fromIndex limit : Option ℕ) : Exec PartialNode := do
  -- The cast to `u32` drops the upper bits.
  let numChildren := node.children.entries.length % 2 ^ 32
  let fromIndex := fromIndex.getD 0
  let limit := limit.getD numChildren
  let stop ← checkedAdd u32Max fromIndex limit
  let children := (node.children.entries.take (min numChildren stop)).drop fromIndex
  return { nodeId := node.nodeId, blockHeight := node.blockHeight, children, fromIndex, numChildren }

namespace Contract

variable (c : Contract)

def getNode (nodeId : NodeId) (fromIndex limit : Option ℕ) : Exec (Option PartialNode) :=
  if nodeId = 0 then do
    let node ← partialNodeView c.rootNode fromIndex limit
    return some node
  else match c.internalGetNode nodeId with
    | none => return none
    | some node => do
      let node ← partialNodeView node fromIndex limit
      return some node

/-- The nodes from an index up to a limit. -/
def getNodes (fromIndex limit : Option ℕ) : Exec (List (Option PartialNode)) := do
  let fromIndex := fromIndex.getD 0
  let limit := limit.getD c.nodeCount
  let stop ← checkedAdd u32Max fromIndex limit
  (List.Ico fromIndex (min c.nodeCount stop)).mapM fun nodeId => c.getNode nodeId none none

/-- The account of an entry of the root. -/
def accountOf (entry : String × NodeValue) : Exec (AccountId × AccountView) :=
  match entry.2 with
  | .node nodeId => do
    let account ← c.accountAt nodeId
    let accountId ← expect (parseAccountId entry.1) UNWRAP_ERR
    return (accountId, account, c.permissionsOf nodeId)
  | _ => .error UNREACHABLE

/-- The accounts from an index up to a limit. -/
def getAccounts (fromIndex limit : Option ℕ) : Exec (List (AccountId × AccountView)) := do
  let entries := c.rootNode.children.entries
  let fromIndex := fromIndex.getD 0
  let limit := limit.getD entries.length
  let stop ← checkedAdd u64Max fromIndex limit
  (List.Ico fromIndex (min entries.length stop)).mapM fun index => do
    let entry ← expect entries[index]? UNWRAP_NONE
    c.accountOf entry

/-- The number of accounts. The cast to `u32` drops the upper bits. -/
def getAccountCount : ℕ := c.rootNode.children.entries.length % 2 ^ 32

end Contract

/-! ## The methods -/

/-- The value as if it was set now. -/
def NodeValue.intoCurrentHeight (env : Env) : NodeValue → NodeValue
  | .value v => .value { v with blockHeight := env.blockHeight }
  | .node nodeId => .node nodeId
  | .deletedEntry _ => .deletedEntry env.blockHeight

/-- The children of a part of a node join those that are there. -/
def populateNode (env : Env) (node : Node) (partialNode : PartialNode) : Node :=
  let insert (children : UnorderedMap String NodeValue) (entry : String × NodeValue) :=
    children.insert entry.1 (entry.2.intoCurrentHeight env)
  { node with children := partialNode.children.foldl insert node.children }

namespace Contract

variable (env : Env) (c : Contract)

def assertGenesis : Exec Unit := ensure (c.status = .genesis) "The status should be set to Genesis"

def genesisInitNodeCount (nodeCount : ℕ) : Exec Contract := do
  c.assertGenesis
  return { c with nodeCount }

/-- Fills the root, or a node that is made if it is missing. -/
def genesisInitNode (node : PartialNode) : Exec Contract :=
  if node.nodeId = 0 then return { c with rootNode := populateNode env c.rootNode node }
  else do
    let currentNode ← (match c.internalGetNode node.nodeId with
      | some currentNode => pure currentNode
      | none => Node.new env node.nodeId none : Exec Node)
    return c.internalSetNode env (populateNode env currentNode node)

def genesisInitNodes (nodes : List PartialNode) : Exec Contract := do
  c.assertGenesis
  nodes.foldlM (genesisInitNode env) c

/-- Fills the account of a node that the root has. -/
def genesisInitAccount (entry : AccountId × PartialAccount) : Exec Contract := do
  let account := entry.2
  let value ← expect (c.rootNode.children.get entry.1)
    "Missing account node, make sure initializing nodes first"
  match value with
  | .node nodeId => do
    let currentAccount ← (match c.accounts.lookup nodeId with
      | some record => record.toAccount
      | none => pure (Account.new nodeId) : Exec Account)
    let currentAccount := { currentAccount with nodeId }
    ensure (currentAccount.nodeId = account.nodeId) "Account Node ID mismatch"
    let currentAccount := { currentAccount with
      storageBalance := account.storageBalance, usedBytes := account.usedBytes }
    let permissions := account.permissions.foldl
      (fun permissions entry => permissions.insert entry.1 entry.2) (c.permissionsOf nodeId)
    return { c with
      permissions := c.permissions.insert nodeId permissions
      accounts := c.accounts.insert account.nodeId currentAccount.stored }
  | _ => .error "Unexpected account key. The value is not a node."

def genesisInitAccounts (accounts : List (AccountId × PartialAccount)) : Exec Contract := do
  c.assertGenesis
  accounts.foldlM genesisInitAccount c

end Contract

/-- The methods that only the contract itself may call, to fill it or after an upgrade of its
code. -/
inductive GenesisMethod
  | migrateState
  | genesisInitNodeCount (nodeCount : ℕ)
  | genesisInitNodes (nodes : List PartialNode)
  | genesisInitAccounts (accounts : List (AccountId × PartialAccount))

/-- The account ids among the arguments, which are parsed as such. -/
def GenesisMethod.accountIds : GenesisMethod → List AccountId
  | genesisInitAccounts accounts => accounts.map Prod.fst
  | _ => []

/-- A call of a method of the genesis. -/
def Contract.callGenesis (env : Env) (c : Contract) (method : GenesisMethod) : Exec Contract := do
  ensure (∀ id ∈ env.predecessorAccountId :: method.accountIds, isValidAccountId id = true)
    "the account ID is invalid"
  ensure (env.attachedDeposit = 0) "Method doesn't accept deposit"
  ensure (env.predecessorAccountId = env.currentAccountId) "Method is private"
  match method with
  -- The state that is read is the state as it is.
  | .migrateState => return c
  | .genesisInitNodeCount nodeCount => c.genesisInitNodeCount nodeCount
  | .genesisInitNodes nodes => c.genesisInitNodes env nodes
  | .genesisInitAccounts accounts => c.genesisInitAccounts accounts

/-- A call of any method. -/
inductive Label
  | call (call : Call)
  | genesis (env : Env) (method : GenesisMethod)

/-- The contract as a machine, with the methods of the genesis. -/
def upgradable (host : Host) : Machine Contract Label String where
  step c
    | .call call => (system host).step c call
    | .genesis env method => c.callGenesis env method

end UncContracts.Social
