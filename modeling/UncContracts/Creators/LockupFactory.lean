import UncContracts.Lockup.Types
import UncContracts.Sdk.Batch

/-!
# The lockup factory

The factory creates lockups on its sub-accounts. The new account gets the attached deposit and the
lockup's code, and its `new` is called, in one batch. A callback awaits the batch and returns the
deposit if it fails.

## Main definitions

* `LockupFactory`: the contract's state
* `create`, `onLockupCreate`: its methods, with the batches they issue
-/

namespace UncContracts.Creators

open Foundation Lockup

namespace LockupFactory

/-- 13 October 2020 18:38:58.293. -/
def TRANSFERS_STARTED : ℕ := 1602614338293769340

/-- The code of a lockup, by its file. -/
def CODE : String := "res/lockup_contract.wasm"

/-- The gas attached to the call that initializes the lockup. -/
def LOCKUP_NEW : ℕ := 25000000000000

def MIN_ATTACHED_BALANCE : ℕ := 3500000000000000000000000

end LockupFactory

/-- The contract's state. -/
structure LockupFactory where
  whitelistAccountId : AccountId
  foundationAccountId : AccountId
  deriving DecidableEq, Repr

namespace LockupFactory

/-- The arguments of the initialization of a lockup. -/
structure LockupArgs where
  ownerAccountId : AccountId
  lockupDuration : ℕ
  lockupTimestamp : Option ℕ
  transfersInformation : TransfersInformation
  vestingSchedule : Option VestingScheduleOrHash
  releaseDuration : Option ℕ
  stakingPoolWhitelistAccountId : AccountId
  foundationAccountId : Option AccountId
  deriving DecidableEq, Repr

/-- The callback that awaits the creation of a lockup, with its arguments. -/
structure OnLockupCreate where
  lockupAccountId : AccountId
  attachedDeposit : ℕ
  predecessorAccountId : AccountId
  deriving DecidableEq, Repr

/-- A digit of a byte in base sixteen. -/
def hexDigit (n : ℕ) : Char := if n < 10 then Char.ofNat (48 + n) else Char.ofNat (87 + n)

/-- `hex::encode`. -/
def hexEncode (bytes : List UInt8) : String :=
  .ofList (bytes.flatMap fun byte => [hexDigit (byte.toNat / 16), hexDigit (byte.toNat % 16)])

/-- `is_promise_success`. -/
def isPromiseSuccess (results : List Bool) : Exec Bool := do
  ensure (results.length = 1) "Contract expected a result on the callback"
  return results.head?.getD false

def new (env : Env) (stateExists : Bool) (whitelistAccountId foundationAccountId : AccountId) :
    Exec LockupFactory := do
  ensure (stateExists = false) "The contract is already initialized"
  ensure (env.currentAccountId.utf8ByteSize ≤ 23)
    "The account ID of this contract can't be more than 23 characters"
  return { whitelistAccountId, foundationAccountId }

/-- The account of an owner's lockup: the beginning of the hash of the owner, under the factory. -/
def lockupAccountId (sha256 : List UInt8 → Hash) (currentAccountId ownerAccountId : AccountId) :
    AccountId :=
  hexEncode ((sha256 ownerAccountId.toUTF8.toList).take 20) ++ "." ++ currentAccountId

variable (s : LockupFactory)

/-- Creates a lockup on a sub-account. -/
def create (sha256 : List UInt8 → Hash) (env : Env) (ownerAccountId : AccountId)
    (lockupDuration : ℕ) (lockupTimestamp : Option ℕ)
    (vestingSchedule : Option VestingScheduleOrHash) (releaseDuration : Option ℕ)
    (whitelistAccountId : Option AccountId) : Exec (Batch LockupArgs OnLockupCreate) := do
  ensure (MIN_ATTACHED_BALANCE ≤ env.attachedDeposit) "Not enough attached deposit"
  let lockupAccountId ← expect
    (parseAccountId (lockupAccountId sha256 env.currentAccountId ownerAccountId))
    "called `Result::unwrap()` on an `Err` value"
  let foundationAccount := if vestingSchedule.isSome then some s.foundationAccountId else none
  -- Defaults to the whitelist account given on initialization.
  let stakingPoolWhitelistAccountId := whitelistAccountId.getD s.whitelistAccountId
  let args : LockupArgs :=
    { ownerAccountId
      lockupDuration
      lockupTimestamp
      transfersInformation := .transfersEnabled TRANSFERS_STARTED
      vestingSchedule
      releaseDuration
      stakingPoolWhitelistAccountId
      foundationAccountId := foundationAccount }
  return {
    receiverId := lockupAccountId
    actions := [.createAccount, .deployContract CODE, .transfer env.attachedDeposit,
      .functionCall "new" args 0 LOCKUP_NEW]
    callback := some {
      lockupAccountId
      attachedDeposit := env.attachedDeposit
      predecessorAccountId := env.predecessorAccountId } }

/-- Callback after a lockup was created: returns the attached deposit if it was not. -/
def onLockupCreate (env : Env) (results : List Bool) (c : OnLockupCreate) :
    Exec (Bool × List (Batch LockupArgs OnLockupCreate)) := do
  ensure (env.predecessorAccountId = env.currentAccountId) "assertion `left == right` failed"
  let lockupAccountCreated ← isPromiseSuccess results
  if lockupAccountCreated then return (true, [])
  else return (false,
    [{ receiverId := c.predecessorAccountId, actions := [.transfer c.attachedDeposit] }])

end LockupFactory

end UncContracts.Creators
