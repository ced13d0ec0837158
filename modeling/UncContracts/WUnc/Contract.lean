import Mathlib.Data.Finset.Card
import UncContracts.Foundation.Machine
import UncContracts.Foundation.Panic
import UncContracts.Sdk.Env

/-!
# The wrapped token

The contract wraps native tokens. A deposit mints as many wrapped tokens, less the storage balance of
an account that it registers; a withdrawal burns wrapped tokens and sends native ones. Everything
else is left to a fungible token of the standard library, which is a parameter here.

## Main definitions

* `FungibleToken`: what the contract calls of the library, and what it reads
* `FungibleToken.Documented`: what the library promises of the supply, the accounts and the tokens
* `Contract`, `uncDeposit`, `uncWithdraw`: the contract's state and its own methods
* `wrapped`: the contract as a machine
-/

namespace UncContracts.WUnc

open Foundation

/-- Native tokens that the contract sends. -/
structure Transfer where
  receiverId : AccountId
  amount : ℕ
  deriving DecidableEq, Repr

/-- The native tokens of some transfers. -/
def paid (transfers : List Transfer) : ℕ := (transfers.map Transfer.amount).sum

@[simp] theorem paid_nil : paid [] = 0 := rfl

@[simp] theorem paid_singleton (receiverId : AccountId) (amount : ℕ) :
    paid [⟨receiverId, amount⟩] = amount := Nat.add_zero amount

/-- The storage balance of an account. -/
structure StorageBalance where
  total : ℕ
  available : ℕ
  deriving DecidableEq, Repr

/-- The outcome of the receiver's method in a transfer call, with the unused amount if it can be
read. -/
inductive PromiseResult
  | successful (unused : Option ℕ)
  | failed
  deriving DecidableEq, Repr

/-- The fungible token of the library, on states of `T`. The promise of a transfer call has no
tokens attached. -/
structure FungibleToken (T : Type) where
  new (storageKey : List UInt8) : T
  /-- The registered accounts, the keys of `accounts`. -/
  accounts : T → Finset AccountId
  ftTotalSupply : T → ℕ
  /-- `storage_balance_bounds().min`. -/
  storageBalanceMin : T → ℕ
  internalRegisterAccount (accountId : AccountId) : T → Exec T
  internalDeposit (accountId : AccountId) (amount : ℕ) : T → Exec T
  internalWithdraw (accountId : AccountId) (amount : ℕ) : T → Exec T
  ftTransfer (env : Env) (receiverId : AccountId) (amount : ℕ) (memo : Option String) : T → Exec T
  ftTransferCall (env : Env) (receiverId : AccountId) (amount : ℕ) (memo : Option String)
    (msg : String) : T → Exec T
  /-- Returns the used and the burned amount. -/
  internalFtResolveTransfer (result : PromiseResult) (senderId receiverId : AccountId)
    (amount : ℕ) : T → Exec (T × ℕ × ℕ)
  storageDeposit (env : Env) (accountId : Option AccountId) (registrationOnly : Option Bool) :
    T → Exec (T × StorageBalance × List Transfer)
  storageWithdraw (env : Env) (amount : Option ℕ) : T → Exec (T × StorageBalance)
  /-- Returns the closed account and its balance, if there is one. -/
  internalStorageUnregister (env : Env) (force : Option Bool) :
    T → Exec (T × Option (AccountId × ℕ) × List Transfer)

namespace FungibleToken

variable {T : Type} (ft : FungibleToken T)

/-- The accounts are the given ones after a call, and the minimum storage balance is the same. -/
structure Leaves (t t' : T) (accounts : Finset AccountId) : Prop where
  accounts_eq : ft.accounts t' = accounts
  min_eq : ft.storageBalanceMin t' = ft.storageBalanceMin t

/-- What the library documents: minting and burning change the supply by the amount or panic,
transfers and their resolution never raise it, and no call changes the minimum storage balance.
A storage deposit keeps the minimum of a new account and refunds the rest. Closing an account
removes its balance from the supply and pays the minimum back with the attached token. -/
structure Documented : Prop where
  new_accounts : ∀ storageKey, ft.accounts (ft.new storageKey) = ∅
  new_supply : ∀ storageKey, ft.ftTotalSupply (ft.new storageKey) = 0
  register : ∀ accountId t t', ft.internalRegisterAccount accountId t = .ok t' →
    ft.Leaves t t' (insert accountId (ft.accounts t)) ∧ ft.ftTotalSupply t' = ft.ftTotalSupply t
  deposit : ∀ accountId amount t t', ft.internalDeposit accountId amount t = .ok t' →
    ft.Leaves t t' (ft.accounts t) ∧ ft.ftTotalSupply t' = ft.ftTotalSupply t + amount
  withdraw : ∀ accountId amount t t', ft.internalWithdraw accountId amount t = .ok t' →
    ft.Leaves t t' (ft.accounts t) ∧ ft.ftTotalSupply t' + amount = ft.ftTotalSupply t
  transfer : ∀ env receiverId amount memo t t', ft.ftTransfer env receiverId amount memo t = .ok t' →
    ft.Leaves t t' (ft.accounts t) ∧ ft.ftTotalSupply t' ≤ ft.ftTotalSupply t
  transferCall : ∀ env receiverId amount memo msg t t',
    ft.ftTransferCall env receiverId amount memo msg t = .ok t' →
      ft.Leaves t t' (ft.accounts t) ∧ ft.ftTotalSupply t' ≤ ft.ftTotalSupply t
  resolve : ∀ result senderId receiverId amount t t' used burned,
    ft.internalFtResolveTransfer result senderId receiverId amount t = .ok (t', used, burned) →
      ft.Leaves t t' (ft.accounts t) ∧ ft.ftTotalSupply t' ≤ ft.ftTotalSupply t
  storageDeposit : ∀ env accountId registrationOnly t t' balance transfers,
    ft.storageDeposit env accountId registrationOnly t = .ok (t', balance, transfers) →
      ft.ftTotalSupply t' = ft.ftTotalSupply t ∧
      (ft.Leaves t t' (ft.accounts t) ∧ paid transfers = env.attachedDeposit ∨
        ft.Leaves t t' (insert (accountId.getD env.predecessorAccountId) (ft.accounts t)) ∧
        paid transfers + ft.storageBalanceMin t = env.attachedDeposit)
  storageWithdraw : ∀ env amount t t' balance,
    ft.storageWithdraw env amount t = .ok (t', balance) →
      ft.Leaves t t' (ft.accounts t) ∧ ft.ftTotalSupply t' = ft.ftTotalSupply t
  unregister_none : ∀ env force t t' transfers,
    ft.internalStorageUnregister env force t = .ok (t', none, transfers) →
      ft.Leaves t t' (ft.accounts t) ∧ ft.ftTotalSupply t' = ft.ftTotalSupply t ∧
      paid transfers = 0
  unregister_some : ∀ env force t t' accountId balance transfers,
    ft.internalStorageUnregister env force t = .ok (t', some (accountId, balance), transfers) →
      accountId ∈ ft.accounts t ∧ ft.Leaves t t' ((ft.accounts t).erase accountId) ∧
      ft.ftTotalSupply t' + balance = ft.ftTotalSupply t ∧
      paid transfers = ft.storageBalanceMin t + env.attachedDeposit

end FungibleToken

/-- The contract's state. -/
structure Contract (T : Type) where
  token : T

/-- The methods that may change the state, with their arguments. -/
inductive Method
  | uncDeposit
  | uncWithdraw (amount : ℕ)
  | ftTransfer (receiverId : AccountId) (amount : ℕ) (memo : Option String)
  | ftTransferCall (receiverId : AccountId) (amount : ℕ) (memo : Option String) (msg : String)
  | ftResolveTransfer (senderId receiverId : AccountId) (amount : ℕ) (result : PromiseResult)
  | storageDeposit (accountId : Option AccountId) (registrationOnly : Option Bool)
  | storageWithdraw (amount : Option ℕ)
  | storageUnregister (force : Option Bool)
  deriving DecidableEq, Repr

namespace Contract

variable {T : Type} (ft : FungibleToken T)

def new : Contract T := ⟨ft.new [97]⟩

variable (env : Env) (s : Contract T)

/-- Registers an owner that is not registered, if enough is attached; returns what is left of the
attached tokens. -/
def registerOwner (ownerId : AccountId) (supply : ℕ) : Exec (Contract T × ℕ) :=
  if ownerId ∉ ft.accounts s.token then do
    ensure (ft.storageBalanceMin s.token ≤ supply) "ERR_DEPOSIT_TOO_SMALL"
    let token ← ft.internalRegisterAccount ownerId s.token
    -- The difference of a `checked_sub` that falls back to zero.
    return (⟨token⟩, supply - ft.storageBalanceMin token)
  else return (s, supply)

/-- Mints wrapped tokens for the attached ones. -/
def uncDeposit : Exec (Contract T) := do
  let supply := env.attachedDeposit
  ensure (0 < supply) "Requires positive attached deposit"
  let ownerId := env.predecessorAccountId
  let (s, supply) ← registerOwner ft s ownerId supply
  let token ← ft.internalDeposit ownerId supply s.token
  return ⟨token⟩

/-- Burns wrapped tokens and sends as many, with the attached one. -/
def uncWithdraw (amount : ℕ) : Exec (Contract T × Transfer) := do
  env.assertOneAtto
  let accountId := env.predecessorAccountId
  let token ← ft.internalWithdraw accountId amount s.token
  let total ← checkedAdd u128Max amount 1
  return (⟨token⟩, ⟨accountId, total⟩)

/-- The callback of a transfer call, which only the contract may call; returns the used amount. -/
def ftResolveTransfer (senderId receiverId : AccountId) (amount : ℕ) (result : PromiseResult) :
    Exec (Contract T × ℕ) := do
  ensure (env.predecessorAccountId = env.currentAccountId) "Method ft_resolve_transfer is private"
  let (token, usedAmount, _) ← ft.internalFtResolveTransfer result senderId receiverId amount s.token
  return (⟨token⟩, usedAmount)

/-- Closes the account of the predecessor; returns whether there was one. -/
def storageUnregister (force : Option Bool) : Exec (Contract T × Bool × List Transfer) := do
  let (token, closed, transfers) ← ft.internalStorageUnregister env force s.token
  match closed with
  | some _ => return (⟨token⟩, true, transfers)
  | none => return (⟨token⟩, false, transfers)

/-- A call of the contract, with the native tokens that it sends. -/
def call (env : Env) (s : Contract T) : Method → Exec (Contract T × List Transfer)
  | .uncDeposit => do
    let s ← s.uncDeposit ft env
    return (s, [])
  | .uncWithdraw amount => do
    let (s, transfer) ← s.uncWithdraw ft env amount
    return (s, [transfer])
  | .ftTransfer receiverId amount memo => do
    let token ← ft.ftTransfer env receiverId amount memo s.token
    return (⟨token⟩, [])
  | .ftTransferCall receiverId amount memo msg => do
    let token ← ft.ftTransferCall env receiverId amount memo msg s.token
    return (⟨token⟩, [])
  | .ftResolveTransfer senderId receiverId amount result => do
    let (s, _) ← s.ftResolveTransfer ft env senderId receiverId amount result
    return (s, [])
  | .storageDeposit accountId registrationOnly => do
    let (token, _, transfers) ← ft.storageDeposit env accountId registrationOnly s.token
    return (⟨token⟩, transfers)
  | .storageWithdraw amount => do
    let (token, _) ← ft.storageWithdraw env amount s.token
    return (⟨token⟩, [])
  | .storageUnregister force => do
    let (s, _, transfers) ← s.storageUnregister ft env force
    return (s, transfers)

end Contract

/-- A call, with its environment. A callback is a call by the contract itself, whatever the outcome
it is given. -/
structure Label where
  env : Env
  method : Method

/-- The contract under calls. -/
def wrapped {T : Type} (ft : FungibleToken T) : Machine (Contract T) Label String where
  step s l := (s.call ft l.env l.method).map Prod.fst

end UncContracts.WUnc
