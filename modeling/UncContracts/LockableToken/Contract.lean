import UncContracts.Foundation.Holdings
import UncContracts.Foundation.Machine
import UncContracts.Foundation.Stateful
import UncContracts.Sdk.Env

/-!
# The lockable fungible token

A token whose owners may grant allowances to escrows. An escrow, or the owner, may lock tokens of
the owner: they leave the unlocked balance, and only the locker may spend or unlock them. What an
escrow locks counts against its allowance.

The methods return errors instead of panicking, and the crate is built without overflow checks. The
methods are therefore given over the arithmetic of the build.

## Main definitions

* `Account`, `FunToken`: the contract's state
* `setAllowance`, `lock`, `unlock`, `transferFrom`, `transfer`: the methods that change it
* `getTotalBalance`: the view that adds up
* `token`: the contract as a machine
-/

namespace UncContracts.LockableToken

open Foundation

/-- A `u128` argument of a call. -/
abbrev U128 := Fin (u128Max + 1)

structure Account where
  /-- Current unlocked balance. -/
  balance : ℕ
  /-- Allowed account to the allowance amount. -/
  allowances : Map AccountId ℕ
  /-- Allowed account to locked balance. -/
  lockedBalances : Map AccountId ℕ

instance : Inhabited Account := ⟨⟨0, ∅, ∅⟩⟩

namespace Account

variable (a : Account) (escrowAccountId : AccountId)

/-- An allowance of zero is removed. -/
def setAllowance (allowance : ℕ) : Account :=
  if 0 < allowance then { a with allowances := a.allowances.insert escrowAccountId allowance }
  else { a with allowances := a.allowances.erase escrowAccountId }

def getAllowance : ℕ := (a.allowances.lookup escrowAccountId).getD 0

/-- A locked balance of zero is removed. -/
def setLockedBalance (lockedBalance : ℕ) : Account :=
  if 0 < lockedBalance then
    { a with lockedBalances := a.lockedBalances.insert escrowAccountId lockedBalance }
  else { a with lockedBalances := a.lockedBalances.erase escrowAccountId }

def getLockedBalance : ℕ := (a.lockedBalances.lookup escrowAccountId).getD 0

/-- The values of the locked balances. -/
def lockedValues : List ℕ := a.lockedBalances.entries.map fun e => e.2

def totalBalance {σ : Type} (m : Arithmetic) : Method σ ℕ := do
  let locked ← m.sum u128Max a.lockedValues
  m.add u128Max a.balance locked

end Account

structure FunToken where
  /-- Account id to account details. -/
  accounts : Map AccountId Account
  /-- Total supply of all tokens. -/
  totalSupply : ℕ

namespace FunToken

variable (s : FunToken)

/-- The account details of `ownerId`. -/
def getAccount (ownerId : AccountId) : Account := (s.accounts.lookup ownerId).getD default

/-- `accounts.insert`. -/
def insertAccount (ownerId : AccountId) (account : Account) : FunToken :=
  { s with accounts := s.accounts.insert ownerId account }

/-- All tokens belong to the owner at first. -/
def new (ownerId : AccountId) (totalSupply : U128) : FunToken :=
  let ft : FunToken := ⟨∅, totalSupply⟩
  let account := { ft.getAccount ownerId with balance := totalSupply }
  ft.insertAccount ownerId account

end FunToken

section Methods

variable (m : Arithmetic) (predecessorId : AccountId)

/-! The methods work on a copy of the owner's account; the parts of it that they check and update
come first. -/

section Copies

variable {σ : Type} (escrowAccountId ownerId : AccountId) (account : Account) (amount : ℕ)

/-- An escrow that locks or transfers needs the allowance, which shrinks. -/
def useAllowance : Method σ Account :=
  if escrowAccountId ≠ ownerId then do
    let allowance := account.getAllowance escrowAccountId
    require (amount ≤ allowance) "Not enough allowance"
    let rest ← m.sub u128Max allowance amount
    return account.setAllowance escrowAccountId rest
  else return account

/-- What an escrow unlocks becomes allowance again. -/
def returnAllowance : Method σ Account :=
  if escrowAccountId ≠ ownerId then do
    let allowance ← m.add u128Max (account.getAllowance escrowAccountId) amount
    return account.setAllowance escrowAccountId allowance
  else return account

/-- A transfer uses the tokens that the caller has locked first; returns the remaining amount. -/
def useLocked : Method σ (Account × ℕ) :=
  let lockedBalance := account.getLockedBalance escrowAccountId
  if amount ≤ lockedBalance then do
    let rest ← m.sub u128Max lockedBalance amount
    return (account.setLockedBalance escrowAccountId rest, 0)
  else do
    let remainingAmount ← m.sub u128Max amount lockedBalance
    return (account.setLockedBalance escrowAccountId 0, remainingAmount)

/-- If there is a remaining amount, a transfer uses unlocked tokens for it. -/
def useUnlocked : Method σ Account :=
  if 0 < amount then do
    require (amount ≤ account.balance) "Not enough unlocked balance"
    let balance ← m.sub u128Max account.balance amount
    useAllowance m escrowAccountId ownerId { account with balance } amount
  else return account

end Copies

/-- Sets the amount that the escrow may spend on behalf of the caller, less what it has locked. -/
def setAllowance (escrowAccountId : AccountId) (allowance : U128) : Method FunToken Unit := do
  let allowance : ℕ := allowance
  let ownerId := predecessorId
  require (escrowAccountId ≠ ownerId) "Can't set allowance for yourself"
  let ft ← get
  let account := ft.getAccount ownerId
  let lockedBalance := account.getLockedBalance escrowAccountId
  require (lockedBalance ≤ allowance)
    "The new allowance can't be less than the amount of locked tokens"
  let rest ← m.sub u128Max allowance lockedBalance
  let account := account.setAllowance escrowAccountId rest
  modify (FunToken.insertAccount · ownerId account)

/-- Locks an additional amount of the owner to the caller. -/
def lock (ownerId : AccountId) (lockAmount : U128) : Method FunToken Unit := do
  let lockAmount : ℕ := lockAmount
  require (lockAmount ≠ 0) "Can't lock 0 tokens"
  let escrowAccountId := predecessorId
  let ft ← get
  let account := ft.getAccount ownerId
  require (lockAmount ≤ account.balance) "Not enough unlocked balance"
  let balance ← m.sub u128Max account.balance lockAmount
  let account := { account with balance }
  let account ← useAllowance m escrowAccountId ownerId account lockAmount
  let lockedBalance := account.getLockedBalance escrowAccountId
  let lockedBalance ← m.add u128Max lockedBalance lockAmount
  let account := account.setLockedBalance escrowAccountId lockedBalance
  modify (FunToken.insertAccount · ownerId account)

/-- Unlocks an amount from the caller back to the owner. -/
def unlock (ownerId : AccountId) (unlockAmount : U128) : Method FunToken Unit := do
  let unlockAmount : ℕ := unlockAmount
  require (unlockAmount ≠ 0) "Can't unlock 0 tokens"
  let escrowAccountId := predecessorId
  let ft ← get
  let account := ft.getAccount ownerId
  let lockedBalance := account.getLockedBalance escrowAccountId
  require (unlockAmount ≤ lockedBalance) "Not enough locked tokens"
  let rest ← m.sub u128Max lockedBalance unlockAmount
  let account := account.setLockedBalance escrowAccountId rest
  let account ← returnAllowance m escrowAccountId ownerId account unlockAmount
  let balance ← m.add u128Max account.balance unlockAmount
  let account := { account with balance }
  modify (FunToken.insertAccount · ownerId account)

/-- Transfers an amount of the owner to the new owner: first what the caller has locked, then
unlocked tokens within its allowance. -/
def transferFrom (ownerId newOwnerId : AccountId) (amount : U128) : Method FunToken Unit := do
  let amount : ℕ := amount
  require (amount ≠ 0) "Can't transfer 0 tokens"
  let escrowAccountId := predecessorId
  let ft ← get
  let account := ft.getAccount ownerId
  let (account, remainingAmount) ← useLocked m escrowAccountId account amount
  let account ← useUnlocked m escrowAccountId ownerId account remainingAmount
  modify (FunToken.insertAccount · ownerId account)
  -- The new owner may be the owner: its account is read again.
  let ft ← get
  let newAccount := ft.getAccount newOwnerId
  let balance ← m.add u128Max newAccount.balance amount
  let newAccount := { newAccount with balance }
  modify (FunToken.insertAccount · newOwnerId newAccount)

/-- Same as `transfer_from` with the caller as owner. -/
def transfer (newOwnerId : AccountId) (amount : U128) : Method FunToken Unit :=
  transferFrom m predecessorId predecessorId newOwnerId amount

/-- The total balance of an account, locked and unlocked. -/
def getTotalBalance (ownerId : AccountId) : Method FunToken ℕ := do
  let ft ← get
  (ft.getAccount ownerId).totalBalance m

end Methods

/-- The public methods that may change the contract, with their arguments. -/
inductive TokenMethod
  | setAllowance (escrowAccountId : AccountId) (allowance : U128)
  | lock (ownerId : AccountId) (lockAmount : U128)
  | unlock (ownerId : AccountId) (unlockAmount : U128)
  | transferFrom (ownerId newOwnerId : AccountId) (amount : U128)
  | transfer (newOwnerId : AccountId) (amount : U128)
  deriving DecidableEq, Repr

/-- A call of a public method. -/
structure Call where
  predecessorId : AccountId
  method : TokenMethod
  deriving DecidableEq, Repr

/-- A call of a public method, in the arithmetic of a build. -/
def call (m : Arithmetic) (c : Call) : Method FunToken Unit :=
  match c.method with
  | .setAllowance escrowAccountId allowance =>
    setAllowance m c.predecessorId escrowAccountId allowance
  | .lock ownerId lockAmount => lock m c.predecessorId ownerId lockAmount
  | .unlock ownerId unlockAmount => unlock m c.predecessorId ownerId unlockAmount
  | .transferFrom ownerId newOwnerId amount =>
    transferFrom m c.predecessorId ownerId newOwnerId amount
  | .transfer newOwnerId amount => transfer m c.predecessorId newOwnerId amount

/-- The state that a result leaves behind, a value or an error. -/
def stateOf {α : Type} : EStateM.Result String FunToken α → FunToken
  | .ok _ s => s
  | .error _ s => s

/-- The contract as a machine over calls, as it is built: without overflow checks, and with what a
call wrote before an error. -/
def token : Machine FunToken Call String where
  step s c := .ok (stateOf ((call .wrapping c).run s))

/-- The call returns no error. -/
def Succeeds (s : FunToken) (c : Call) : Prop := ∃ t, (call .wrapping c).run s = .ok () t

end UncContracts.LockableToken
