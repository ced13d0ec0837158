import Mathlib.Data.Finset.Erase
import Mathlib.Data.Finset.Insert
import UncContracts.Foundation.Holdings
import UncContracts.Foundation.InFlight
import UncContracts.Foundation.Machine
import UncContracts.Foundation.Panic
import UncContracts.Sdk.Env

/-!
# The airdrop contract

Tokens are sent to a public key, which becomes a limited access key of the contract's account. Who
holds the key claims them, to an account or to a new one. A batch of actions on an account succeeds
or fails as a whole, and a callback that awaits it runs with the signer's key of the claim.

## Main definitions

* `AirDrop`: the contract's state
* `AirDrop.send`, `AirDrop.claim`, `AirDrop.createAccountAndClaim`,
  `AirDrop.onAccountCreatedAndClaimed`: the methods and the callback of an airdrop
* `World`, `system`: the contract with its access keys and what is in flight, as a machine
-/

namespace UncContracts.Airdrop

open Foundation

/-- Access key allowance for airdrop keys. -/
def ACCESS_KEY_ALLOWANCE : ℕ := 1000000000000000000000000

/-- Methods callable by the function call access key. -/
def ACCESS_KEY_METHOD_NAMES : String := "claim,create_account_and_claim"

/-- What an access key may spend on gas. -/
inductive Allowance
  | unlimited
  | limited (amount : ℕ)
  deriving DecidableEq, Repr

/-- `Allowance::limited(amount).unwrap_or(Allowance::Unlimited)`. -/
def Allowance.ofAmount (amount : ℕ) : Allowance := if amount = 0 then .unlimited else .limited amount

structure LimitedAccessKey where
  publicKey : PublicKey
  allowance : ℕ
  receiverId : AccountId
  methodNames : String
  deriving DecidableEq, Repr

/-- Options for `create_account_advanced`. -/
structure CreateAccountOptions where
  fullAccessKeys : Option (List PublicKey)
  limitedAccessKeys : Option (List LimitedAccessKey)
  contractBytes : Option (List UInt8)
  deriving DecidableEq, Repr

/-- An action on an account. -/
inductive Action
  | createAccount
  | transfer (amount : ℕ)
  | addFullAccessKey (publicKey : PublicKey)
  | addAccessKeyAllowance (publicKey : PublicKey) (allowance : Allowance) (receiverId : AccountId)
      (methodNames : String)
  | deleteKey (publicKey : PublicKey)
  | deployContract (code : List UInt8)
  deriving DecidableEq, Repr

/-- The methods by which the contract awaits a batch. -/
inductive Callback
  | onAccountCreated (predecessorAccountId : AccountId) (amount : ℕ)
  | onAccountCreatedAndClaimed (amount : ℕ)
  deriving DecidableEq, Repr

/-- A batch of actions on an account, with the callback that awaits it. -/
structure Promise where
  receiverId : AccountId
  actions : List Action
  callback : Option Callback := none
  deriving DecidableEq, Repr

/-- The contract's state: the balances of the keys. -/
structure AirDrop where
  accounts : Map PublicKey ℕ
  deriving DecidableEq

/-- `is_promise_success`. -/
def isPromiseSuccess (results : List Bool) : Exec Bool := do
  ensure (results.length = 1) "Contract expected a result on the callback"
  return results.head?.getD false

namespace AirDrop

/-- Initializes the contract with an empty map for the accounts. -/
def new : AirDrop := { accounts := ∅ }

variable (s : AirDrop) (env : Env)

/-- The balance of a key, with zero for none. -/
def balanceOf (publicKey : PublicKey) : ℕ := (s.accounts.lookup publicKey).getD 0

/-- Allows given public key to claim sent balance. -/
def send (publicKey : PublicKey) : Exec (AirDrop × List Promise) := do
  ensure (ACCESS_KEY_ALLOWANCE < env.attachedDeposit)
    "Attached deposit must be greater than ACCESS_KEY_ALLOWANCE"
  let value := saturatingAdd (s.balanceOf publicKey) env.attachedDeposit - ACCESS_KEY_ALLOWANCE
  return ({ s with accounts := s.accounts.insert publicKey value }, [{
    receiverId := env.currentAccountId
    actions := [.addAccessKeyAllowance publicKey (.ofAmount ACCESS_KEY_ALLOWANCE)
      env.currentAccountId ACCESS_KEY_METHOD_NAMES] }])

/-- Takes the balance of the signer's key out of the map. -/
def remove : Exec (AirDrop × ℕ) := do
  let amount ← expect (s.accounts.lookup env.signerAccountPk) "Unexpected public key"
  return ({ s with accounts := s.accounts.erase env.signerAccountPk }, amount)

/-- Claim tokens for specific account that are attached to the signer's key. -/
def claim (accountId : AccountId) : Exec (AirDrop × List Promise) := do
  ensure (env.predecessorAccountId = env.currentAccountId) "Claim only can come from this account"
  ensure (isValidAccountId accountId) "Invalid account id"
  let (s, amount) ← s.remove env
  return (s, [{ receiverId := env.currentAccountId, actions := [.deleteKey env.signerAccountPk] },
    { receiverId := accountId, actions := [.transfer amount] }])

/-- The batch that creates an account with a full access key and an amount. -/
def creation (newAccountId : AccountId) (newPublicKey : PublicKey) (amount : ℕ)
    (callback : Callback) : Promise where
  receiverId := newAccountId
  actions := [.createAccount, .addFullAccessKey newPublicKey, .transfer amount]
  callback := some callback

/-- Create new account and claim tokens to it. -/
def createAccountAndClaim (newAccountId : AccountId) (newPublicKey : PublicKey) :
    Exec (AirDrop × List Promise) := do
  ensure (env.predecessorAccountId = env.currentAccountId)
    "Create account and claim only can come from this account"
  ensure (isValidAccountId newAccountId) "Invalid account id"
  let (s, amount) ← s.remove env
  return (s, [creation newAccountId newPublicKey amount (.onAccountCreatedAndClaimed amount)])

/-- Create new account without airdrop and deposit passed funds. -/
def createAccount (newAccountId : AccountId) (newPublicKey : PublicKey) :
    Exec (AirDrop × List Promise) := do
  ensure (isValidAccountId newAccountId) "Invalid account id"
  return (s, [creation newAccountId newPublicKey env.attachedDeposit
    (.onAccountCreated env.predecessorAccountId env.attachedDeposit)])

/-- Create new account with the options and deposit passed funds. -/
def createAccountAdvanced (newAccountId : AccountId) (options : CreateAccountOptions) :
    Exec (AirDrop × List Promise) := do
  ensure (options.contractBytes.isSome || options.fullAccessKeys.isSome ||
    options.limitedAccessKeys.isSome) "Cannot create account with no options. Please specify either contract bytes, full access keys, or limited access keys."
  let fullAccessKeys := (options.fullAccessKeys.getD []).map .addFullAccessKey
  let limitedAccessKeys := (options.limitedAccessKeys.getD []).map fun key =>
    .addAccessKeyAllowance key.publicKey (.ofAmount key.allowance) key.receiverId key.methodNames
  let contractBytes := options.contractBytes.toList.map .deployContract
  return (s, [{
    receiverId := newAccountId
    actions := [.createAccount, .transfer env.attachedDeposit] ++ fullAccessKeys ++
      limitedAccessKeys ++ contractBytes
    callback := some (.onAccountCreated env.predecessorAccountId env.attachedDeposit) }])

/-- Callback after executing `create_account` or `create_account_advanced`. -/
def onAccountCreated (results : List Bool) (predecessorAccountId : AccountId) (amount : ℕ) :
    Exec (AirDrop × List Promise) := do
  ensure (env.predecessorAccountId = env.currentAccountId)
    "Callback can only be called from the contract"
  let creationSucceeded ← isPromiseSuccess results
  if creationSucceeded then return (s, [])
  else return (s, [{ receiverId := predecessorAccountId, actions := [.transfer amount] }])

/-- Callback after execution of `create_account_and_claim`. -/
def onAccountCreatedAndClaimed (results : List Bool) (amount : ℕ) :
    Exec (AirDrop × List Promise) := do
  ensure (env.predecessorAccountId = env.currentAccountId)
    "Callback can only be called from the contract"
  let creationSucceeded ← isPromiseSuccess results
  if creationSucceeded then
    return (s, [{ receiverId := env.currentAccountId, actions := [.deleteKey env.signerAccountPk] }])
  else
    -- The amount is put back in place of what is recorded by now.
    return ({ s with accounts := s.accounts.insert env.signerAccountPk amount }, [])

end AirDrop

/-- The public methods. -/
inductive Method
  | send (publicKey : PublicKey)
  | claim (accountId : AccountId)
  | createAccountAndClaim (newAccountId : AccountId) (newPublicKey : PublicKey)
  | createAccount (newAccountId : AccountId) (newPublicKey : PublicKey)
  | createAccountAdvanced (newAccountId : AccountId) (options : CreateAccountOptions)
  | callback (callback : Callback)
  deriving DecidableEq, Repr

/-- The methods that take a deposit. -/
def Method.isPayable : Method → Bool
  | send _ | createAccount _ _ | createAccountAdvanced _ _ => true
  | _ => false

/-- A call of a public method, with the results of the promises that it awaited. -/
def AirDrop.call (s : AirDrop) (env : Env) (results : List Bool) (method : Method) :
    Exec (AirDrop × List Promise) := do
  ensure (env.attachedDeposit = 0 ∨ method.isPayable = true) "Method doesn't accept deposit"
  match method with
  | .send publicKey => s.send env publicKey
  | .claim accountId => s.claim env accountId
  | .createAccountAndClaim newAccountId newPublicKey =>
    s.createAccountAndClaim env newAccountId newPublicKey
  | .createAccount newAccountId newPublicKey => s.createAccount env newAccountId newPublicKey
  | .createAccountAdvanced newAccountId options => s.createAccountAdvanced env newAccountId options
  | .callback (.onAccountCreated predecessorAccountId amount) =>
    s.onAccountCreated env results predecessorAccountId amount
  | .callback (.onAccountCreatedAndClaimed amount) =>
    s.onAccountCreatedAndClaimed env results amount

/-! ## The system -/

/-- What is in flight, with the signer's key of the transaction and the method that issued it. -/
inductive Receipt
  | promise (p : Promise) (signerAccountPk : PublicKey) (origin : Method)
  | callback (c : Callback) (success : Bool) (signerAccountPk : PublicKey)
  deriving DecidableEq, Repr

/-- The contract's account, with its access keys and what is in flight. -/
structure World where
  accountId : AccountId
  contract : AirDrop
  keys : Finset PublicKey
  receipts : List Receipt
  deriving DecidableEq

/-- What may happen next. -/
inductive Label
  /-- A call of a public method, by an account or with an access key. -/
  | call (env : Env) (method : Method)
  /-- The execution of a batch. At another account it may succeed or fail. -/
  | deliver (i : ℕ) (success : Bool)
  /-- The execution of a callback. -/
  | resume (i : ℕ) (env : Env)
  deriving DecidableEq, Repr

/-- An action on the contract's own account: its access keys after it. A key is added once, and
the account exists. -/
def Action.onOwn (keys : Finset PublicKey) : Action → Option (Finset PublicKey)
  | createAccount => none
  | addFullAccessKey key | addAccessKeyAllowance key _ _ _ =>
    if key ∈ keys then none else some (insert key keys)
  | deleteKey key => if key ∈ keys then some (keys.erase key) else none
  | transfer _ | deployContract _ => some keys

/-- A batch on the contract's own account. -/
def Promise.onOwn (keys : Finset PublicKey) (p : Promise) : Option (Finset PublicKey) :=
  p.actions.foldlM Action.onOwn keys

namespace World

variable (w : World)

/-- A new contract, with the access keys of its account. -/
def initial (accountId : AccountId) (keys : Finset PublicKey) : World :=
  { accountId, contract := .new, keys, receipts := [] }

/-- The world after a method, with its promises in flight. -/
def issued (env : Env) (origin : Method) (contract : AirDrop) (receipts : List Receipt)
    (promises : List Promise) : World :=
  { w with
    contract
    receipts := receipts ++ promises.map fun p => .promise p env.signerAccountPk origin }

/-- The outcome of a batch: whether it succeeds, and the access keys after it. -/
def outcome (p : Promise) (success : Bool) : Bool × Finset PublicKey :=
  if p.receiverId = w.accountId then
    match p.onOwn w.keys with
    | some keys => (true, keys)
    | none => (false, w.keys)
  else (success, w.keys)

/-- The world after a batch. -/
def delivered (p : Promise) (signerAccountPk : PublicKey) (receipts : List Receipt)
    (success : Bool) : World :=
  { w with
    keys := (w.outcome p success).2
    receipts := receipts ++
      p.callback.toList.map fun c => .callback c (w.outcome p success).1 signerAccountPk }

end World

/-- The airdrop as a machine. A callback that panics takes back what it did. -/
def system : Machine World Label String where
  step w l :=
    match l with
    | .call env method => do
      ensure (env.currentAccountId = w.accountId) "The receipt is for another account"
      let (contract, promises) ← w.contract.call env [] method
      return w.issued env method contract w.receipts promises
    | .deliver i success => do
      let (receipt, receipts) ← expect (takeAt w.receipts i) "No such receipt"
      match receipt with
      | .promise p signerAccountPk _ => return w.delivered p signerAccountPk receipts success
      | .callback _ _ _ => .error "A callback runs at the contract"
    | .resume i env => do
      let (receipt, receipts) ← expect (takeAt w.receipts i) "No such receipt"
      match receipt with
      | .promise _ _ _ => .error "Only callbacks run at the contract"
      | .callback c success signerAccountPk => do
        ensure (env.currentAccountId = w.accountId) "The receipt is for another account"
        ensure (env.predecessorAccountId = w.accountId) "The contract calls its callbacks"
        ensure (env.signerAccountPk = signerAccountPk) "The signer is that of the transaction"
        ensure (env.attachedDeposit = 0) "The callbacks take no deposit"
        match w.contract.call env [success] (.callback c) with
        | .ok (contract, promises) => return w.issued env (.callback c) contract receipts promises
        | .error _ => return { w with receipts }

end UncContracts.Airdrop
