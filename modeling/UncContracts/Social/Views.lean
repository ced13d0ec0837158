import UncContracts.Social.Methods

/-!
# The views of the social contract

Reading values and keys by patterns of paths, and asking for permissions. A pattern of `*` matches
one part of a path, and `**` matches everything below a node. The recursion of the reads goes down
the nodes, which is bounded here by their number. Other views are about the storage of accounts.

## Main definitions

* `Contract.get`: the values that match patterns, in a JSON object
* `Contract.keys`: the keys that match patterns
* `Contract.isWritePermissionGranted`: whether an account or a key may write at a path
* `Contract.getAccountStorage`, `storageBalanceBounds`: the storage of an account and its bounds
-/

namespace UncContracts.Social

open Foundation

def STAR : String := "*"

def RECURSIVE_STAR : String := "**"

def KEY_BLOCK_HEIGHT : String := ":block"

def KEY_NODE_ID : String := ":node"

/-- More steps than there are nodes. -/
def OUT_OF_STEPS : String := "out of steps"

/-- The message of an access without an element. -/
def INDEX_OUT_OF_BOUNDS : String := "index out of bounds"

def SUFFIX_ONLY : String := "'**' pattern can only be used as a suffix"

structure GetOptions where
  withBlockHeight : Option Bool := none
  withNodeId : Option Bool := none
  returnDeleted : Option Bool := none
  deriving DecidableEq, Repr

inductive KeysReturnType
  | true
  | blockHeight
  | nodeId
  deriving DecidableEq, Repr

structure KeysOptions where
  /-- The type of the returned values. -/
  returnType : Option KeysReturnType := none
  /-- Whether to match keys for deleted values. -/
  returnDeleted : Option Bool := none
  /-- Whether to match nodes. -/
  valuesOnly : Option Bool := none
  deriving DecidableEq, Repr

/-- A JSON object that is built by its fields. -/
abbrev JsonMap := List (String × Json)

def NodeValue.getBlockHeight : NodeValue → Option ℕ
  | .value v => some v.blockHeight
  | .node _ => none
  | .deletedEntry blockHeight => some blockHeight

/-- The JSON number of a height or a node id. -/
def jsonNumber (n : ℕ) : Json := .number n 0

/-! ## JSON objects -/

/-- The object under a key, which is made if there is none. A value that is there moves under the
empty key. -/
def jsonMapGetInnerObject (res : JsonMap) (key : String) : JsonMap :=
  match UnorderedMap.find key res with
  | none => []
  | some (.object o) => o
  | some prevValue => [(EMPTY_KEY, prevValue)]

def jsonMapSetValue (res : JsonMap) (key : String) (value : Json) : JsonMap :=
  match UnorderedMap.find key res with
  | none => UnorderedMap.write key value res
  | some (.object o) => UnorderedMap.write key (.object (UnorderedMap.write EMPTY_KEY value o)) res
  | some _ => res

/-- The JSON value of an entry, if it is to be shown. -/
def GetOptions.newValue (options : GetOptions) (nodeValue : NodeValue) : Exec (Option Json) :=
  let newValue : Option Json := match nodeValue with
    | .value v => some (.string v.value)
    | .deletedEntry _ => if options.returnDeleted = some true then some .null else none
    | .node _ => none
  match newValue with
  | none => return none
  | some newValue =>
    if options.withBlockHeight = some true then do
      let blockHeight ← expect nodeValue.getBlockHeight UNWRAP_NONE
      return some (.object [(KEY_BLOCK_HEIGHT, jsonNumber blockHeight), (EMPTY_KEY, newValue)])
    else return some newValue

mutual

/-- Puts the value of an entry under a key, if nothing is there. -/
def jsonMapSetKey (options : GetOptions) (res : JsonMap) (key : String) (nodeValue : NodeValue) :
    Exec JsonMap :=
  match res with
  | [] => do
    let newValue ← options.newValue nodeValue
    return (newValue.map fun value => (key, value)).toList
  | (k, value) :: res =>
    if k = key then do
      let value ← jsonSetOwnKey options value nodeValue
      return (k, value) :: res
    else do
      let res ← jsonMapSetKey options res key nodeValue
      return (k, value) :: res

/-- An object takes the value under the empty key. Other values should match. -/
def jsonSetOwnKey (options : GetOptions) (value : Json) (nodeValue : NodeValue) : Exec Json :=
  match value with
  | .object o => do
    let o ← jsonMapSetKey options o EMPTY_KEY nodeValue
    return .object o
  | value => return value

end

mutual

/-- Removes the objects without fields, other than the keys that the views add. -/
def jsonMapRecursiveCleanup : JsonMap → JsonMap
  | [] => []
  | (key, value) :: res =>
    if isSpecialKey key then (key, value) :: jsonMapRecursiveCleanup res
    else match jsonCleanup value with
      | none => jsonMapRecursiveCleanup res
      | some value => (key, value) :: jsonMapRecursiveCleanup res

/-- A value after its objects are cleaned up, or none if it has no field of its own. -/
def jsonCleanup : Json → Option Json
  | .object o =>
    let o := jsonMapRecursiveCleanup o
    let numSpecialKeys := o.countP fun field => isSpecialKey field.1
    if numSpecialKeys < o.length then some (.object o) else none
  | value => some value

end

/-! ## Reading values -/

/-- The entries of a node that a part of a pattern matches. -/
def Node.matchedEntries (node : Node) (key : String) (all : Bool) : List (String × NodeValue) :=
  if all then node.children.entries
  else match node.children.get key with
    | some value => [(key, value)]
    | none => []

namespace Contract

/-- The values below a matched entry, where `keys` is the rest of the pattern. -/
def getEntry (c : Contract) (options : GetOptions) (key : String) (keys : List String)
    (recursiveGet : JsonMap → Node → List String → Exec JsonMap) (res : JsonMap)
    (entry : String × NodeValue) : Exec JsonMap :=
  let isRecursiveMatchAll := decide (key = RECURSIVE_STAR)
  match entry.2 with
  | .node nodeId => do
    let innerNode ← c.internalUnwrapNode nodeId
    if keys ≠ [] ∨ isRecursiveMatchAll = true then
      let innerMap := jsonMapGetInnerObject res entry.1
      let innerMap ← if keys ≠ [] then recursiveGet innerMap innerNode keys else pure innerMap
      let innerMap ←
        if isRecursiveMatchAll then recursiveGet innerMap innerNode (key :: keys) else pure innerMap
      return UnorderedMap.write entry.1 (.object innerMap) res
    else match innerNode.children.get EMPTY_KEY with
      | some nodeValue =>
        let res := if options.withNodeId = some true then
            UnorderedMap.write entry.1 (.object (UnorderedMap.write KEY_NODE_ID
              (jsonNumber innerNode.nodeId) (jsonMapGetInnerObject res entry.1))) res
          else res
        jsonMapSetKey options res entry.1 nodeValue
      | none => return res
  | nodeValue =>
    if keys = [] then jsonMapSetKey options res entry.1 nodeValue else return res

/-- Adds the values below a node that match a pattern. -/
def recursiveGet (c : Contract) (options : GetOptions) :
    ℕ → JsonMap → Node → List String → Exec JsonMap
  | 0, _, _, _ => .error OUT_OF_STEPS
  | _ + 1, _, _, [] => .error INDEX_OUT_OF_BOUNDS
  | steps + 1, res, node, key :: keys => do
    let isRecursiveMatchAll := decide (key = RECURSIVE_STAR)
    ensure (isRecursiveMatchAll = true → keys = []) SUFFIX_ONLY
    let matchedEntries := node.matchedEntries key (decide (key = STAR) || isRecursiveMatchAll)
    let res := if options.withBlockHeight = some true then
        UnorderedMap.write KEY_BLOCK_HEIGHT (jsonNumber node.blockHeight) res
      else res
    let res := if options.withNodeId = some true then
        UnorderedMap.write KEY_NODE_ID (jsonNumber node.nodeId) res
      else res
    matchedEntries.foldlM (c.getEntry options key keys (recursiveGet c options steps)) res

end Contract

/-- The parts of a pattern, without the empty one after a separator at its end. A pattern that still
ends in an empty part is left out. -/
def patternPath (key : String) : Option (List String) :=
  let path := splitPath key
  if path.getLast? = some EMPTY_KEY then
    let path := path.dropLast
    if path.getLast? = some EMPTY_KEY ∨ path = [] then none else some path
  else if path = [] then none else some path

namespace Contract

/-- Adds the values that match a pattern. -/
def getKey (c : Contract) (options : GetOptions) (res : JsonMap) (key : String) : Exec JsonMap :=
  match patternPath key with
  | some path => c.recursiveGet options c.nodeCount res c.rootNode path
  | none => return res

/-- The values that match one of the patterns. -/
def get (c : Contract) (keys : List String) (options : Option GetOptions) : Exec Json := do
  let res ← keys.foldlM (c.getKey (options.getD {})) []
  return .object (jsonMapRecursiveCleanup res)

/-! ## Reading keys -/

/-- What is shown for a matched node, if anything. -/
def keysNodeValue (c : Contract) (options : KeysOptions) (nodeId : NodeId) : Exec (Option Json) :=
  let returnType := options.returnType.getD .true
  if options.valuesOnly.getD false = true then do
    let innerNode ← c.internalUnwrapNode nodeId
    match innerNode.children.get EMPTY_KEY with
    | none => return none
    | some nodeValue =>
      let isDeleted := match nodeValue with
        | .deletedEntry _ => true
        | _ => false
      if options.returnDeleted.getD false = true ∨ isDeleted = false then
        match returnType with
        | .true => return some (.bool true)
        | .blockHeight => do
          let blockHeight ← expect nodeValue.getBlockHeight UNWRAP_NONE
          return some (jsonNumber blockHeight)
        | .nodeId => return some (jsonNumber nodeId)
      else return none
  else match returnType with
    | .true => return some (.bool true)
    | .blockHeight => do
      let innerNode ← c.internalUnwrapNode nodeId
      return some (jsonNumber innerNode.blockHeight)
    | .nodeId => return some (jsonNumber nodeId)

/-- What is shown for a value or a mark of a deleted one. -/
def keysLeafValue (options : KeysOptions) (blockHeight : ℕ) : Json :=
  match options.returnType.getD .true with
  | .true => .bool true
  | .blockHeight => jsonNumber blockHeight
  | .nodeId => .null

/-- The keys below a matched entry, where `keys` is the rest of the pattern. -/
def keysEntry (c : Contract) (options : KeysOptions) (keys : List String)
    (recursiveKeys : JsonMap → Node → Exec JsonMap) (res : JsonMap) (entry : String × NodeValue) :
    Exec JsonMap :=
  match entry.2 with
  | .node nodeId =>
    if keys = [] then do
      let value ← c.keysNodeValue options nodeId
      return value.elim res (jsonMapSetValue res entry.1)
    else do
      let innerNode ← c.internalUnwrapNode nodeId
      let innerMap ← recursiveKeys (jsonMapGetInnerObject res entry.1) innerNode
      return UnorderedMap.write entry.1 (.object innerMap) res
  | .value v =>
    if keys = [] then return jsonMapSetValue res entry.1 (keysLeafValue options v.blockHeight)
    else return res
  | .deletedEntry blockHeight =>
    if keys = [] ∧ options.returnDeleted.getD false = true then
      return jsonMapSetValue res entry.1 (keysLeafValue options blockHeight)
    else return res

/-- Adds the keys below a node that match a pattern. -/
def recursiveKeys (c : Contract) (options : KeysOptions) :
    List String → JsonMap → Node → Exec JsonMap
  | [], _, _ => .error INDEX_OUT_OF_BOUNDS
  | key :: keys, res, node =>
    (node.matchedEntries key (decide (key = STAR))).foldlM
      (c.keysEntry options keys (recursiveKeys c options keys)) res

/-- Adds the keys that match a pattern. -/
def keysKey (c : Contract) (options : KeysOptions) (res : JsonMap) (key : String) : Exec JsonMap :=
  match patternPath key with
  | some path => c.recursiveKeys options path res c.rootNode
  | none => return res

/-- The keys that match one of the patterns. -/
def keys (c : Contract) (keys : List String) (options : Option KeysOptions) : Exec Json := do
  let res ← keys.foldlM (c.keysKey (options.getD {})) []
  return .object (jsonMapRecursiveCleanup res)

/-! ## Permissions -/

/-- Whether the walk down a path meets a node that is granted. -/
def meetsGranted (c : Contract) (nodeIds : Finset NodeId) : Node → List String → Exec Bool
  | _, [] => return false
  | node, key :: path =>
    match node.children.get key with
    | some (.node nodeId) =>
      if nodeId ∈ nodeIds then return true
      else do
        let node ← c.internalUnwrapNode nodeId
        meetsGranted c nodeIds node path
    | _ => return false

/-- Whether a permission is granted to write at a path or above it. -/
def isWritePermissionGranted (c : Contract) (predecessorId : Option AccountId)
    (publicKey : Option PublicKey) (key : String) : Exec Bool := do
  let permissionKey ← permissionKeyOf predecessorId publicKey
  match splitPath key with
  | [] => .error "The key is empty"
  | accountId :: path =>
    match ← c.internalGetAccount accountId with
    | none => return false
    | some account =>
      match (c.permissionsOf account.nodeId).get permissionKey with
      | none => return false
      | some (.granted nodeIds) =>
        if account.nodeId ∈ nodeIds then return true
        else do
          let node ← c.internalUnwrapNode account.nodeId
          c.meetsGranted nodeIds node path

end Contract

/-! ## Storage -/

structure StorageView where
  usedBytes : ℕ
  availableBytes : ℕ
  deriving DecidableEq, Repr

/-- The bytes that an account may still take from its pool, if it has one. -/
def Contract.availableSharedBytes (host : Host) (c : Contract) (account : Account) : Exec ℕ :=
  match account.sharedStorage with
  | none => return 0
  | some s => do
    let pool ← c.internalUnwrapSharedStoragePool s.poolId
    s.availableBytes host pool

/-- The storage of an account in bytes, with what is shared with it. -/
def Contract.getAccountStorage (host : Host) (c : Contract) (accountId : AccountId) :
    Exec (Option StorageView) := do
  match ← c.internalGetAccount accountId with
  | none => return none
  | some account => do
    let availableSharedBytes ← c.availableSharedBytes host account
    let ownBytes ← account.ownBytes
    -- The cast to `u64` drops the upper bits of the balance.
    let availableBytes ← checkedSub (account.storageBalance % 2 ^ 64) ownBytes
    let availableBytes ← checkedAdd u64Max availableBytes availableSharedBytes
    return some { usedBytes := account.usedBytes, availableBytes }

structure StorageBalanceBounds where
  min : ℕ
  max : Option ℕ
  deriving DecidableEq, Repr

/-- What an account has to hold to be registered. -/
def storageBalanceBounds : StorageBalanceBounds := { min := MIN_STORAGE_BALANCE, max := none }

end UncContracts.Social
