import Mathlib.Data.Finset.Basic
import UncContracts.Foundation.Holdings
import UncContracts.Foundation.Panic
import UncContracts.Foundation.UnorderedMap
import UncContracts.Sdk.Env
import UncContracts.Sdk.Json

/-!
# The data of the social contract

The social contract stores a tree of nodes for each account. A node has entries under keys: values,
marks of deleted values, and further nodes. An account may let others write below some of its
nodes, and pays for the storage that its tree takes, from its own balance or from a shared pool.

## Main definitions

* `Contract`: the contract's state
* `Node`, `NodeValue`: the nodes and their entries
* `Account`, `Permission`, `PermissionKey`: the accounts and what they grant
* `StorageTracker`, `SharedStoragePool`: the accounting of storage
* `Host`: what the contract reads from its host about its storage
-/

namespace UncContracts.Social

open Foundation

abbrev NodeId := ℕ

/-- The key under which the own value of a node is kept. -/
def EMPTY_KEY : String := ""

def ERR_PERMISSION_DENIED : String := "Permission Denied"

def MAX_KEY_LENGTH : ℕ := 256

def SEPARATOR : Char := '/'

/-- The fewest bytes that are shared with an account. -/
def MIN_STORAGE_BYTES : ℕ := 2000

def MIN_STORAGE_BALANCE : ℕ := 0

/-- A shared storage pool takes deposits of at least 100 UNC. -/
def MINIMUM_SHARED_STORAGE_BALANCE : ℕ := 100 * 10 ^ 24

inductive ContractStatus
  | genesis
  | live
  | readOnly
  deriving DecidableEq, Repr

structure ValueAtHeight where
  value : String
  blockHeight : ℕ
  deriving DecidableEq, Repr

/-- An entry of a node. -/
inductive NodeValue
  | value (v : ValueAtHeight)
  | node (nodeId : NodeId)
  /-- The value was deleted at a height. -/
  | deletedEntry (blockHeight : ℕ)
  deriving DecidableEq, Repr

structure Node where
  nodeId : NodeId
  blockHeight : ℕ
  children : UnorderedMap String NodeValue
  deriving DecidableEq

/-- Whom a permission is granted to. -/
inductive PermissionKey
  | accountId (accountId : AccountId)
  | signerPublicKey (publicKey : PublicKey)
  deriving DecidableEq, Repr

/-- The nodes below which a permission lets write. -/
inductive Permission
  | granted (nodeIds : Finset NodeId)
  deriving DecidableEq

def Permission.isEmpty : Permission → Bool
  | .granted nodeIds => nodeIds = ∅

/-- A helper object that tracks changes in state storage. -/
structure StorageTracker where
  bytesAdded : ℕ := 0
  bytesReleased : ℕ := 0
  initialStorageUsage : Option ℕ := none
  deriving DecidableEq, Repr

/-- The storage that an account has from a shared pool. -/
structure AccountSharedStorage where
  /-- The most bytes from the pool. -/
  maxBytes : ℕ
  /-- The bytes in use from the pool. -/
  usedBytes : ℕ
  poolId : AccountId
  deriving DecidableEq, Repr

structure SharedStoragePool where
  storageBalance : ℕ
  usedBytes : ℕ
  /-- The sum of the most bytes over the accounts, which may be more than there are. -/
  sharedBytes : ℕ
  deriving DecidableEq, Repr

/-- An account. Its permissions are kept by the contract, under a prefix of the node id, and not in
the record of the account. -/
structure Account where
  storageBalance : ℕ
  usedBytes : ℕ
  nodeId : NodeId
  storageTracker : StorageTracker
  sharedStorage : Option AccountSharedStorage
  deriving DecidableEq, Repr

/-- The record of an account before there was shared storage. -/
structure AccountV0 where
  storageBalance : ℕ
  usedBytes : ℕ
  deriving DecidableEq, Repr

/-- The stored record of an account. -/
inductive VAccount
  | v0 (v : AccountV0)
  | current (c : Account)
  deriving DecidableEq, Repr

/-- The contract's state. -/
structure Contract where
  accounts : Map NodeId VAccount
  /-- The permissions that the accounts grant, by their node ids. -/
  permissions : Map NodeId (UnorderedMap PermissionKey Permission)
  rootNode : Node
  nodes : Map NodeId Node
  nodeCount : NodeId
  status : ContractStatus
  sharedStoragePools : Map AccountId SharedStoragePool
  deriving DecidableEq

/-- The storage that a state takes at the host, and the price of a byte of it. -/
structure Host where
  storageUsage : Contract → ℕ
  storageByteCost : ℕ

/-- A transfer that the contract issues. -/
structure Transfer where
  receiverId : AccountId
  amount : ℕ
  deriving DecidableEq, Repr

/-! ## Storage trackers -/

namespace StorageTracker

variable (t : StorageTracker)

/-- Starts tracking the state storage changes. -/
def start (storageUsage : ℕ) : Exec StorageTracker := do
  ensure (t.initialStorageUsage = none) "The storage tracker is already tracking"
  return { t with initialStorageUsage := some storageUsage }

/-- Stops tracking the state storage changes and records changes in bytes. -/
def stop (storageUsage : ℕ) : Exec StorageTracker := do
  let initialStorageUsage ← expect t.initialStorageUsage "The storage tracker wasn't tracking"
  if initialStorageUsage ≤ storageUsage then
    let bytesAdded ← checkedAdd u64Max t.bytesAdded (storageUsage - initialStorageUsage)
    return { t with bytesAdded, initialStorageUsage := none }
  else
    let bytesReleased ← checkedAdd u64Max t.bytesReleased (initialStorageUsage - storageUsage)
    return { t with bytesReleased, initialStorageUsage := none }

/-- Consumes the other storage tracker's changes. What was released before is replaced. -/
def consume (other : StorageTracker) : Exec (StorageTracker × StorageTracker) := do
  let bytesAdded ← checkedAdd u64Max t.bytesAdded other.bytesAdded
  ensure (other.initialStorageUsage = none)
    "Can't merge storage tracker that is tracking storage"
  return ({ t with bytesAdded, bytesReleased := other.bytesReleased },
    { other with bytesAdded := 0, bytesReleased := 0 })

def clear : Exec StorageTracker := do
  ensure (t.initialStorageUsage = none) "Can't clear storage tracker that is active"
  return { t with bytesAdded := 0, bytesReleased := 0 }

/-- No bytes are added or released, and the tracker is not active. -/
def isEmpty : Bool :=
  t.bytesAdded = 0 && t.bytesReleased = 0 && t.initialStorageUsage = none

/-- The check when a tracker is dropped. -/
def drop : Exec Unit := ensure (t.isEmpty = true) "Bug, non-tracked storage change"

end StorageTracker

/-! ## Shared storage -/

/-- The bytes that a pool has left. -/
def SharedStoragePool.availableBytes (host : Host) (pool : SharedStoragePool) : Exec ℕ :=
  -- The cast to `u64` drops the upper bits.
  checkedSub (pool.storageBalance / host.storageByteCost % 2 ^ 64) pool.usedBytes

/-- The bytes that an account may still take from its pool. -/
def AccountSharedStorage.availableBytes (host : Host) (s : AccountSharedStorage)
    (pool : SharedStoragePool) : Exec ℕ := do
  let ownBytes ← checkedSub s.maxBytes s.usedBytes
  let poolBytes ← pool.availableBytes host
  return min ownBytes poolBytes

/-! ## Accounts -/

/-- `UncToken::saturating_mul`. -/
def saturatingMul (a b : ℕ) : ℕ := min (a * b) u128Max

namespace Account

def new (nodeId : NodeId) : Account where
  storageBalance := 0
  usedBytes := 0
  nodeId
  storageTracker := {}
  sharedStorage := none

/-- What of an account is stored: neither its node id nor its tracker. -/
def stored (account : Account) : VAccount := .current { account with nodeId := 0, storageTracker := {} }

/-- The bytes in use that the account pays for itself. -/
def ownBytes (account : Account) : Exec ℕ :=
  checkedSub account.usedBytes ((account.sharedStorage.map AccountSharedStorage.usedBytes).getD 0)

def assertStorageCovered (host : Host) (account : Account) : Exec Unit := do
  let ownBytes ← account.ownBytes
  ensure (saturatingMul ownBytes host.storageByteCost ≤ account.storageBalance)
    "Not enough storage balance"

end Account

/-- The account of a stored record. A record from before shared storage grows by a byte. -/
def VAccount.toAccount : VAccount → Exec Account
  | .v0 v => do
    let usedBytes ← checkedAdd u64Max v.usedBytes 1
    return { storageBalance := v.storageBalance, usedBytes, nodeId := 0, storageTracker := {},
             sharedStorage := none }
  | .current c => return c

/-! ## Nodes -/

namespace Node

/-- A new node, with an own value if there is one. -/
def new (env : Env) (nodeId : NodeId) (value : Option NodeValue) : Exec Node :=
  match value with
  | none => return { nodeId, blockHeight := env.blockHeight, children := .empty }
  | some (.node _) => .error "Invariant: empty key value can't be a node"
  | some value =>
    return { nodeId, blockHeight := env.blockHeight
             children := UnorderedMap.empty.insert EMPTY_KEY value }

/-- The entry that a JSON value makes: a string is a value, and `null` deletes. -/
def entryOf (env : Env) : Json → Exec NodeValue
  | .string s => return .value { value := s, blockHeight := env.blockHeight }
  | .null => return .deletedEntry env.blockHeight
  | _ => .error "Invariant: value must be a string or null"

/-- Puts a value under a key, which may not lead to a node. -/
def set (env : Env) (node : Node) (key : String) (value : Json) : Exec Node := do
  let value ← entryOf env value
  match node.children.get key with
  | some (.node _) => .error "Internal error, the replaced value was a node"
  | _ => return { node with children := node.children.insert key value }

end Node

/-! ## Keys -/

/-- The characters of a key. -/
def isKeyChar (c : Char) : Bool :=
  ('a' ≤ c && c ≤ 'z') || ('A' ≤ c && c ≤ 'Z') || ('0' ≤ c && c ≤ '9') ||
    c = '_' || c = '.' || c = '-'

def isKeyValid (key : String) : Bool :=
  key.utf8ByteSize ≤ MAX_KEY_LENGTH && key.toList.all isKeyChar

def assertKeyValid (key : String) : Exec Unit :=
  ensure (isKeyValid key = true) "Key contains invalid character or longer than 256"

/-- `key.starts_with(':')`: a key that the views add. -/
def isSpecialKey (key : String) : Bool := key.toList.head? = some ':'

theorem isSpecialKey_of_isKeyValid {key : String} (h : isKeyValid key = true) :
    isSpecialKey key = false := by
  simp only [isKeyValid, Bool.and_eq_true, List.all_eq_true] at h
  refine decide_eq_false ?_
  intro hhead
  exact absurd (h.2 ':' (List.mem_of_mem_head? hhead)) (by decide)

theorem isSpecialKey_of_isValidAccountId {id : AccountId} (h : isValidAccountId id = true) :
    isSpecialKey id = false := by
  simp only [isValidAccountId, Bool.and_eq_true] at h
  refine decide_eq_false ?_
  intro hhead
  obtain ⟨tail, htail⟩ := List.head?_eq_some_iff.mp hhead
  rw [htail] at h
  exact absurd h.2 (by simp [accountIdChars])

/-- The characters between separators. -/
def splitChars : List Char → List (List Char)
  | [] => [[]]
  | c :: cs =>
    if c = SEPARATOR then [] :: splitChars cs
    else match splitChars cs with
      | [] => [[c]]
      | part :: parts => (c :: part) :: parts

/-- `key.split(SEPARATOR)`. -/
def splitPath (key : String) : List String := (splitChars key.toList).map String.ofList

/-- The path that has some parts between its separators. -/
def joinPath (parts : List String) : String := (String.singleton SEPARATOR).intercalate parts

theorem splitChars_eq_splitOn (l : List Char) : splitChars l = l.splitOn SEPARATOR := by
  induction l with
  | nil => rfl
  | cons c l ih =>
    rw [splitChars, List.splitOn_cons_eq_if_modifyHead, ih]
    simp only [beq_iff_eq]
    congr 1
    cases hparts : l.splitOn SEPARATOR with
    | nil => exact absurd hparts (List.splitOn_ne_nil SEPARATOR l)
    | cons part parts => rfl

/-- A path splits into its parts. -/
theorem splitPath_joinPath {parts : List String} (hne : parts ≠ [])
    (h : ∀ part ∈ parts, SEPARATOR ∉ part.toList) : splitPath (joinPath parts) = parts := by
  have hchars : ∀ l ∈ parts.map String.toList, SEPARATOR ∉ l := by
    intro l hl
    obtain ⟨part, hpart, rfl⟩ := List.mem_map.mp hl
    exact h part hpart
  rw [splitPath, splitChars_eq_splitOn, joinPath, String.toList_intercalate, String.toList_singleton,
    List.splitOn_intercalate SEPARATOR hchars (by simpa using hne), List.map_map]
  refine (List.map_congr_left fun part _ => ?_).trans (List.map_id parts)
  exact String.ofList_toList

theorem separator_not_mem_of_isKeyValid {key : String} (h : isKeyValid key = true) :
    SEPARATOR ∉ key.toList := by
  simp only [isKeyValid, Bool.and_eq_true, List.all_eq_true] at h
  intro hmem
  exact absurd (h.2 SEPARATOR hmem) (by decide)

theorem separator_not_mem_of_isValidAccountId {id : AccountId} (h : isValidAccountId id = true) :
    SEPARATOR ∉ id.toList := by
  have hword : ¬ (SEPARATOR.isLower || SEPARATOR.isDigit) = true := by decide
  have hdot : ¬ (decide (SEPARATOR = '-') || decide (SEPARATOR = '_') || decide (SEPARATOR = '.')) =
      true := by decide
  have hchars : ∀ (l : List Char) (b : Bool), accountIdChars b l = true → SEPARATOR ∉ l := by
    intro l
    induction l with
    | nil => exact fun _ _ => List.not_mem_nil
    | cons c l ih =>
      intro b hl
      rw [accountIdChars] at hl
      rw [List.mem_cons, not_or]
      constructor
      · rintro rfl
        rw [if_neg hword, if_neg hdot] at hl
        cases hl
      · split at hl
        · exact ih false hl
        · split at hl
          · rw [Bool.and_eq_true] at hl
            exact ih true hl.2
          · cases hl
  rw [isValidAccountId, Bool.and_eq_true] at h
  exact hchars id.toList true h.2

end UncContracts.Social
