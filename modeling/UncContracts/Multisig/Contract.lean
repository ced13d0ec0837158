import Mathlib.Data.Finset.Basic
import Mathlib.Data.Finset.Card
import UncContracts.Foundation.Holdings
import UncContracts.Foundation.Machine
import UncContracts.Foundation.Panic
import UncContracts.Sdk.Env

/-!
# The multisig contract

Members of the multisig, accounts or access keys of its own account, request actions and confirm
requests. A request is executed by the confirmation that reaches the required number. Requests may
add and delete members and change that number.

## Main definitions

* `MultisigMember`, `MultiSigRequest`, `MultiSigContract`: the contract's data
* `addRequest`, `deleteRequest`, `executeRequest`, `confirm`: its methods
* `multisig`, `issuing`: the contract as a machine, alone and with the promises that it issues
-/

namespace UncContracts.Multisig

open Foundation

/-- Unlimited allowance for multisig keys. -/
def DEFAULT_ALLOWANCE : ℕ := 0

/-- The time before a request can be deleted. -/
def REQUEST_COOLDOWN : ℕ := 900000000000

/-- Default limit of active requests. -/
def ACTIVE_REQUESTS_LIMIT : ℕ := 12

/-- Default set of methods that an access key should have. -/
def MULTISIG_METHOD_NAMES : String := "add_request,delete_request,confirm,add_and_confirm_request"

abbrev RequestId := ℕ

/-- A member of the multisig: an account, or an access key of the multisig's account. -/
inductive MultisigMember
  | accessKey (publicKey : PublicKey)
  | account (accountId : AccountId)
  deriving DecidableEq, Repr

/-- The JSON text of a member. Public keys and account ids have no characters to escape. -/
def MultisigMember.toString : MultisigMember → String
  | .accessKey publicKey => "\x7b\"AccessKey\":\x7b\"public_key\":\"" ++ publicKey ++ "\"\x7d\x7d"
  | .account accountId => "\x7b\"Account\":\x7b\"account_id\":\"" ++ accountId ++ "\"\x7d\x7d"

/-- Permissions of a function call access key. -/
structure FunctionCallPermission where
  allowance : Option ℕ
  receiverId : AccountId
  methodNames : List String
  deriving DecidableEq, Repr

/-- The lowest level actions of the multisig. -/
inductive MultiSigRequestAction
  | transfer (amount : ℕ)
  | createAccount
  | deployContract (code : List UInt8)
  | addMember (member : MultisigMember)
  | deleteMember (member : MultisigMember)
  | addKey (publicKey : PublicKey) (permission : Option FunctionCallPermission)
  | functionCall (methodName : String) (args : List UInt8) (deposit gas : ℕ)
  | setNumConfirmations (numConfirmations : ℕ)
  | setActiveRequestsLimit (activeRequestsLimit : ℕ)
  deriving DecidableEq, Repr

/-- The receiving account and the actions to execute there. -/
structure MultiSigRequest where
  receiverId : AccountId
  actions : List MultiSigRequestAction
  deriving DecidableEq, Repr

/-- A request with the member that added it and the time it did. -/
structure MultiSigRequestWithSigner where
  request : MultiSigRequest
  member : MultisigMember
  addedTimestamp : ℕ
  deriving DecidableEq, Repr

/-- The allowance of an access key. -/
inductive Allowance
  | unlimited
  | limited (amount : ℕ)
  deriving DecidableEq, Repr

/-- `Allowance::limited(amount).unwrap_or(Allowance::Unlimited)`: zero is no limit. -/
def Allowance.ofAmount (amount : ℕ) : Allowance := if amount = 0 then .unlimited else .limited amount

/-- An action of a promise. -/
inductive PromiseAction
  | transfer (amount : ℕ)
  | createAccount
  | deployContract (code : List UInt8)
  | addAccessKeyAllowance (publicKey : PublicKey) (allowance : Allowance) (receiverId : AccountId)
      (methodNames : String)
  | addFullAccessKey (publicKey : PublicKey)
  | deleteKey (publicKey : PublicKey)
  | functionCall (methodName : String) (args : List UInt8) (deposit gas : ℕ)
  deriving DecidableEq, Repr

/-- A batch of actions on an account. -/
structure Promise where
  receiverId : AccountId
  actions : List PromiseAction
  deriving DecidableEq, Repr

/-- The batch with one more action. -/
def Promise.andThen (p : Promise) (a : PromiseAction) : Promise :=
  { p with actions := p.actions ++ [a] }

/-- What a confirmation returns. -/
inductive PromiseOrValue
  | promise (p : Promise)
  | value (b : Bool)
  deriving DecidableEq, Repr

/-- The contract's state. -/
structure MultiSigContract where
  members : Finset MultisigMember
  /-- The number of confirmations required. -/
  numConfirmations : ℕ
  requestNonce : RequestId
  requests : Map RequestId MultiSigRequestWithSigner
  /-- The confirmations of the active requests, by the texts of the members. -/
  confirmations : Map RequestId (Finset String)
  /-- The number of requests per member. -/
  numRequestsPk : Map String ℕ
  activeRequestsLimit : ℕ

namespace MultiSigContract

variable (s : MultiSigContract)

/-! ## Helper methods -/

/-- The member that calls: the predecessor, or the signer's key where the multisig calls itself. -/
def caller (env : Env) : MultisigMember :=
  if env.currentAccountId = env.predecessorAccountId then .accessKey env.signerAccountPk
  else .account env.predecessorAccountId

/-- The current member, if the caller is one. -/
def currentMember (env : Env) : Option MultisigMember :=
  if caller env ∈ s.members then some (caller env) else none

/-- Adds a member, and an access key if the member is one. -/
def addMember (env : Env) (promise : Promise) (member : MultisigMember) :
    MultiSigContract × Promise :=
  ({ s with members := insert member s.members },
    match member with
    | .accessKey publicKey => promise.andThen (.addAccessKeyAllowance publicKey
        (.ofAmount DEFAULT_ALLOWANCE) env.currentAccountId MULTISIG_METHOD_NAMES)
    | .account _ => promise)

/-- The requests of a member. -/
def requestIdsOf (member : MultisigMember) : List RequestId :=
  s.requests.entries.filterMap fun e => if e.2.member = member then some e.1 else none

/-- Removes a request and its confirmations. -/
def dropRequest (requestId : RequestId) : MultiSigContract :=
  { s with
    confirmations := s.confirmations.erase requestId
    requests := s.requests.erase requestId }

/-- Deletes a member with the requests it added; the confirmations it left on the requests of
others stay. -/
def deleteMember (promise : Promise) (member : MultisigMember) :
    Exec (MultiSigContract × Promise) := do
  let remaining ← checkedSub s.members.card 1
  ensure (s.numConfirmations ≤ remaining)
    "Removing given member will make total number of members below number of confirmations"
  let s := (s.requestIdsOf member).foldl dropRequest s
  let s := { s with
    numRequestsPk := s.numRequestsPk.erase member.toString
    members := s.members.erase member }
  return (s,
    match member with
    | .accessKey publicKey => promise.andThen (.deleteKey publicKey)
    | .account _ => promise)

/-- Removes a request with its confirmations and takes it off the number of its author. -/
def removeRequest (requestId : RequestId) : Exec (MultiSigContract × MultiSigRequest) := do
  let requestWithSigner ← expect (s.requests.lookup requestId) "Failed to remove existing element"
  let s := s.dropRequest requestId
  let originalMember := requestWithSigner.member
  let numRequests := (s.numRequestsPk.lookup originalMember.toString).getD 0
  let numRequests := if 0 < numRequests then numRequests - 1 else numRequests
  return ({ s with numRequestsPk := s.numRequestsPk.insert originalMember.toString numRequests },
    requestWithSigner.request)

/-- The caller is a member, and the request exists with its confirmations. -/
def assertValidRequest (env : Env) (requestId : RequestId) : Exec Unit := do
  ensure (s.currentMember env).isSome
    "Caller (predecessor or signer) is not a member of this multisig"
  ensure (s.requests.lookup requestId).isSome
    "No such request: either wrong number or already confirmed"
  ensure (s.confirmations.lookup requestId).isSome
    "Internal error: confirmations mismatch requests"

def assertSelfRequest (env : Env) (receiverId : AccountId) : Exec Unit :=
  ensure (receiverId = env.currentAccountId)
    "This method only works when receiver_id is equal to current_account_id"

def assertOneActionOnly (env : Env) (receiverId : AccountId) (numActions : ℕ) : Exec Unit := do
  assertSelfRequest env receiverId
  ensure (numActions = 1) "This method should be a separate request"

/-! ## Execution -/

/-- The remaining actions of a request of `numActions` actions, after those in the promise. -/
def executeActions (env : Env) (receiverId : AccountId) (numActions : ℕ) :
    List MultiSigRequestAction → MultiSigContract → Promise →
      Exec (MultiSigContract × PromiseOrValue)
  | [], s, promise => return (s, .promise promise)
  | .transfer amount :: actions, s, promise =>
    executeActions env receiverId numActions actions s (promise.andThen (.transfer amount))
  | .createAccount :: actions, s, promise =>
    executeActions env receiverId numActions actions s (promise.andThen .createAccount)
  | .deployContract code :: actions, s, promise =>
    executeActions env receiverId numActions actions s (promise.andThen (.deployContract code))
  | .addMember member :: actions, s, promise => do
    assertSelfRequest env receiverId
    let (s, promise) := s.addMember env promise member
    executeActions env receiverId numActions actions s promise
  | .deleteMember member :: actions, s, promise => do
    assertSelfRequest env receiverId
    let (s, promise) ← s.deleteMember promise member
    executeActions env receiverId numActions actions s promise
  | .addKey publicKey permission :: actions, s, promise => do
    assertSelfRequest env receiverId
    let promise := match permission with
      | some permission => promise.andThen (.addAccessKeyAllowance publicKey
          (.ofAmount (permission.allowance.getD DEFAULT_ALLOWANCE)) permission.receiverId
          (",".intercalate permission.methodNames))
      | none => promise.andThen (.addFullAccessKey publicKey)
    executeActions env receiverId numActions actions s promise
  | .functionCall methodName args deposit gas :: actions, s, promise =>
    executeActions env receiverId numActions actions s
      (promise.andThen (.functionCall methodName args deposit gas))
  -- The following actions must be the only one of their request.
  | .setNumConfirmations numConfirmations :: _, s, _ => do
    assertOneActionOnly env receiverId numActions
    return ({ s with numConfirmations }, .value true)
  | .setActiveRequestsLimit activeRequestsLimit :: _, s, _ => do
    assertOneActionOnly env receiverId numActions
    return ({ s with activeRequestsLimit }, .value true)

/-- Executes a request that was removed already. -/
def executeRequest (env : Env) (request : MultiSigRequest) :
    Exec (MultiSigContract × PromiseOrValue) :=
  executeActions env request.receiverId request.actions.length request.actions s
    ⟨request.receiverId, []⟩

end MultiSigContract

open MultiSigContract

/-! ## Public methods -/

/-- Initializes the multisig with its members and the number of confirmations. -/
def MultiSigContract.new (env : Env) (members : List MultisigMember) (numConfirmations : ℕ) :
    Exec (MultiSigContract × Promise) := do
  ensure (numConfirmations ≤ members.length)
    "Members list must be equal or larger than number of confirmations"
  let s : MultiSigContract :=
    { members := ∅
      numConfirmations
      requestNonce := 0
      requests := ∅
      confirmations := ∅
      numRequestsPk := ∅
      activeRequestsLimit := ACTIVE_REQUESTS_LIMIT }
  return members.foldl (fun (s, promise) member => s.addMember env promise member)
    (s, ⟨env.currentAccountId, []⟩)

namespace MultiSigContract

variable (s : MultiSigContract)

/-- Adds a request; returns its id. -/
def addRequest (env : Env) (request : MultiSigRequest) : Exec (MultiSigContract × RequestId) := do
  let currentMember ← expect (s.currentMember env)
    "Predecessor must be a member or transaction signed with key of given account"
  let numRequests ← checkedAdd u32Max ((s.numRequestsPk.lookup currentMember.toString).getD 0) 1
  ensure (numRequests ≤ s.activeRequestsLimit)
    "Account has too many active requests. Confirm or delete some."
  let requestAdded : MultiSigRequestWithSigner :=
    { request, member := currentMember, addedTimestamp := env.blockTimestamp }
  let requestNonce ← checkedAdd u32Max s.requestNonce 1
  return ({ s with
      numRequestsPk := s.numRequestsPk.insert currentMember.toString numRequests
      requests := s.requests.insert s.requestNonce requestAdded
      confirmations := s.confirmations.insert s.requestNonce ∅
      requestNonce },
    requestNonce - 1)

/-- Confirms a request; executes it with the confirmation that reaches the required number. -/
def confirm (env : Env) (requestId : RequestId) : Exec (MultiSigContract × PromiseOrValue) := do
  s.assertValidRequest env requestId
  let member ← expect (s.currentMember env) "Must be validated above"
  let confirmations ← expect (s.confirmations.lookup requestId)
    "called `Option::unwrap()` on a `None` value"
  ensure (member.toString ∉ confirmations) "Already confirmed this request with this key"
  let reached ← checkedAdd u32Max confirmations.card 1
  if s.numConfirmations ≤ reached then
    let (s, request) ← s.removeRequest requestId
    s.executeRequest env request
  else
    return ({ s with
        confirmations := s.confirmations.insert requestId (insert member.toString confirmations) },
      .value true)

/-- Adds a request and confirms it by the member that added it. The id is returned; what the
confirmation promises is issued all the same. -/
def addRequestAndConfirm (env : Env) (request : MultiSigRequest) :
    Exec (MultiSigContract × PromiseOrValue × RequestId) := do
  let (s, requestId) ← s.addRequest env request
  let (s, result) ← s.confirm env requestId
  return (s, result, requestId)

/-- Removes a request with its confirmations, once the cooldown is over. -/
def deleteRequest (env : Env) (requestId : RequestId) : Exec MultiSigContract := do
  s.assertValidRequest env requestId
  let requestWithSigner ← expect (s.requests.lookup requestId) "No such request"
  let deletable ← checkedAdd u64Max requestWithSigner.addedTimestamp REQUEST_COOLDOWN
  ensure (deletable < env.blockTimestamp) "Request cannot be deleted immediately after creation."
  let (s, _) ← s.removeRequest requestId
  return s

end MultiSigContract

/-- The public methods, with their arguments. -/
inductive Method
  | addRequest (request : MultiSigRequest)
  | addRequestAndConfirm (request : MultiSigRequest)
  | deleteRequest (requestId : RequestId)
  | confirm (requestId : RequestId)
  deriving DecidableEq, Repr

/-- A call of a public method. -/
structure Call where
  env : Env
  method : Method
  deriving DecidableEq, Repr

/-- A call with what it issues. No method accepts a deposit. -/
def MultiSigContract.call (s : MultiSigContract) (c : Call) :
    Exec (MultiSigContract × PromiseOrValue) := do
  ensure (c.env.attachedDeposit = 0) "Method doesn't accept deposit"
  match c.method with
  | .addRequest request => do
    let (s, _) ← s.addRequest c.env request
    return (s, .value true)
  | .addRequestAndConfirm request => do
    let (s, result, _) ← s.addRequestAndConfirm c.env request
    return (s, result)
  | .deleteRequest requestId => do
    let s ← s.deleteRequest c.env requestId
    return (s, .value true)
  | .confirm requestId => s.confirm c.env requestId

/-- The contract as a machine over calls. -/
def multisig : Machine MultiSigContract Call String where
  step s c := do
    let (s, _) ← s.call c
    return s

/-- The promises of a result. -/
def PromiseOrValue.issued : PromiseOrValue → List Promise
  | .promise p => [p]
  | .value _ => []

/-- The contract with the promises that it has issued, the last at the end. -/
structure Issuer where
  contract : MultiSigContract
  issued : List Promise

/-- The contract with what it issues, as a machine over calls. -/
def issuing : Machine Issuer Call String where
  step a c := do
    let (contract, result) ← a.contract.call c
    return { contract, issued := a.issued ++ result.issued }

end UncContracts.Multisig
