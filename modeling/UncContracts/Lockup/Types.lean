import UncContracts.Foundation.Panic
import UncContracts.Sdk.Env

/-!
# The data of the lockup contract

A lockup holds tokens for its owner until they are released and vested. It may deposit them to a
staking pool, and a foundation may terminate the vesting and collect what is unvested. Calls of
other contracts return later, by callbacks.

## Main definitions

* `LockupContract`: the contract's state
* `VestingSchedule`, `VestingInformation`, `TerminationInformation`: the vesting and its end
* `ExternalMethod`, `Callback`, `Promise`: what the contract asks other accounts to do, and the
  methods it awaits the results with
-/

namespace UncContracts.Lockup

open Foundation

/-- The contract keeps at least 3.5 UNC in the account for its storage. -/
def MIN_BALANCE_FOR_STORAGE : ℕ := 3500000000000000000000000

/-- Whether transfers are enabled. -/
inductive TransfersInformation
  | transfersEnabled (transfersTimestamp : ℕ)
  | transfersDisabled (transferPollAccountId : AccountId)
  deriving DecidableEq, Repr

/-- The token lockup. -/
structure LockupInformation where
  /-- The amount of tokens locked. -/
  lockupAmount : ℕ
  /-- The tokens withdrawn by the foundation after an early termination of the vesting. -/
  terminationWithdrawnTokens : ℕ
  lockupDuration : ℕ
  releaseDuration : Option ℕ
  lockupTimestamp : Option ℕ
  transfersInformation : TransfersInformation
  deriving DecidableEq, Repr

/-- The status of the transactions with the staking pool. -/
inductive TransactionStatus
  | idle
  | busy
  deriving DecidableEq, Repr

/-- The selected staking pool. -/
structure StakingInformation where
  stakingPoolAccountId : AccountId
  status : TransactionStatus
  /-- The tokens deposited to the pool, as far as the contract knows. -/
  depositAmount : ℕ
  deriving DecidableEq, Repr

structure VestingSchedule where
  startTimestamp : ℕ
  cliffTimestamp : ℕ
  endTimestamp : ℕ
  deriving DecidableEq, Repr

/-- The order of the timestamps. -/
def VestingSchedule.assertValid (vs : VestingSchedule) : Exec Unit := do
  ensure (vs.startTimestamp ≤ vs.cliffTimestamp)
    "Cliff timestamp can't be earlier than vesting start timestamp"
  ensure (vs.cliffTimestamp ≤ vs.endTimestamp)
    "Cliff timestamp can't be later than vesting end timestamp"
  ensure (vs.startTimestamp < vs.endTimestamp) "The total vesting time should be positive"

abbrev Hash := List UInt8

/-- The vesting of a new lockup, private or public. -/
inductive VestingScheduleOrHash
  | vestingHash (hash : Hash)
  | vestingSchedule (schedule : VestingSchedule)
  deriving DecidableEq, Repr

/-- The stages of a termination. -/
inductive TerminationStatus
  | vestingTerminatedWithDeficit
  | unstakingInProgress
  | everythingUnstaked
  | withdrawingFromStakingPoolInProgress
  | readyToWithdraw
  | withdrawingFromAccountInProgress
  deriving DecidableEq, Repr

/-- The early termination of the vesting. -/
structure TerminationInformation where
  /-- The tokens that are unvested and go back to the foundation. -/
  unvestedAmount : ℕ
  status : TerminationStatus
  deriving DecidableEq, Repr

inductive VestingInformation
  | none
  | vestingHash (hash : Hash)
  | vestingSchedule (schedule : VestingSchedule)
  | terminating (information : TerminationInformation)
  deriving DecidableEq, Repr

/-- A vesting schedule with the salt that makes its hash unique. -/
structure VestingScheduleWithSalt where
  vestingSchedule : VestingSchedule
  salt : List UInt8
  deriving DecidableEq, Repr

/-- The little-endian bytes of a word. -/
def littleEndian (bytes n : ℕ) : List UInt8 :=
  (List.range bytes).map fun i => UInt8.ofNat (n / 256 ^ i)

/-- The borsh encoding of a schedule with its salt. -/
def VestingScheduleWithSalt.toBorsh (v : VestingScheduleWithSalt) : List UInt8 :=
  littleEndian 8 v.vestingSchedule.startTimestamp ++
    littleEndian 8 v.vestingSchedule.cliffTimestamp ++
    littleEndian 8 v.vestingSchedule.endTimestamp ++ littleEndian 4 v.salt.length ++ v.salt

/-- The hash of a schedule with its salt, by the host's `sha256`. -/
def VestingScheduleWithSalt.hash (sha256 : List UInt8 → Hash) (v : VestingScheduleWithSalt) :
    Hash :=
  sha256 v.toBorsh

/-- The contract's state. -/
structure LockupContract where
  ownerAccountId : AccountId
  lockupInformation : LockupInformation
  vestingInformation : VestingInformation
  stakingPoolWhitelistAccountId : AccountId
  /-- The selected staking pool, if any. -/
  stakingInformation : Option StakingInformation
  /-- The account that may terminate the vesting. -/
  foundationAccountId : Option AccountId
  deriving DecidableEq, Repr

/-- The methods that the lockup calls at other contracts. -/
inductive ExternalMethod
  | isWhitelisted (stakingPoolAccountId : AccountId)
  | getAccountStakedBalance (accountId : AccountId)
  | getAccountUnstakedBalance (accountId : AccountId)
  | getAccountTotalBalance (accountId : AccountId)
  | deposit
  | depositAndStake
  | withdraw (amount : ℕ)
  | stake (amount : ℕ)
  | unstake (amount : ℕ)
  | unstakeAll
  | getResult
  deriving DecidableEq, Repr

/-- The methods by which the lockup awaits results. -/
inductive Callback
  | onWhitelistIsWhitelisted (stakingPoolAccountId : AccountId)
  | onStakingPoolDeposit (amount : ℕ)
  | onStakingPoolDepositAndStake (amount : ℕ)
  | onStakingPoolWithdraw (amount : ℕ)
  | onStakingPoolStake (amount : ℕ)
  | onStakingPoolUnstake (amount : ℕ)
  | onStakingPoolUnstakeAll
  | onGetResultFromTransferPoll
  | onGetAccountTotalBalance
  | onGetAccountUnstakedBalanceToWithdrawByOwner
  | onWithdrawUnvestedAmount (amount : ℕ) (receiverId : AccountId)
  | onGetAccountStakedBalanceToUnstake
  | onStakingPoolUnstakeForTermination (amount : ℕ)
  | onGetAccountUnstakedBalanceToWithdraw
  | onStakingPoolWithdrawForTermination (amount : ℕ)
  deriving DecidableEq, Repr

/-- What the lockup asks of an account, with the callback that awaits the outcome. -/
inductive Promise
  | functionCall (receiverId : AccountId) (method : ExternalMethod) (attachedDeposit : ℕ)
      (callback : Callback)
  | transfer (receiverId : AccountId) (amount : ℕ) (callback : Option Callback)
  | addFullAccessKey (receiverId : AccountId) (publicKey : PublicKey)
  deriving DecidableEq, Repr

/-- The callback that awaits a promise. -/
def Promise.callback : Promise → Option Callback
  | .functionCall _ _ _ callback => some callback
  | .transfer _ _ callback => callback
  | .addFullAccessKey _ _ => none

/-- The tokens that a promise takes from the account. -/
def Promise.tokens : Promise → ℕ
  | .functionCall _ _ attachedDeposit _ => attachedDeposit
  | .transfer _ amount _ => amount
  | .addFullAccessKey _ _ => 0

/-- What a callback returns: another promise, or a value. -/
inductive PromiseOrValue
  | promise (p : Promise)
  | value (b : Bool)
  deriving DecidableEq, Repr

/-- The value that a successful call returned, by its type. -/
inductive Value
  | bool (b : Bool)
  | amount (n : ℕ)
  | pollResult (timestamp : Option ℕ)
  | other
  deriving DecidableEq, Repr

/-- The outcome of the call that a callback awaits. -/
inductive PromiseResult
  | successful (value : Value)
  | failed
  deriving DecidableEq, Repr

/-- `is_promise_success`. -/
def PromiseResult.isSuccess : PromiseResult → Bool
  | .successful _ => true
  | .failed => false

/-- A parameter marked `#[callback]`: the callback panics unless the call returned such a value. -/
def PromiseResult.parse {α : Type} (result : PromiseResult) (ofValue : Value → Option α) : Exec α :=
  match result with
  | .successful value => expect (ofValue value) "Failed to deserialize callback using JSON"
  | .failed => .error "Callback computation 0 was not successful"

def Value.toBool : Value → Option Bool
  | .bool b => some b
  | _ => none

/-- An amount is a `u128`. -/
def Value.toAmount : Value → Option ℕ
  | .amount n => if n ≤ u128Max then some n else none
  | _ => none

def Value.toPollResult : Value → Option (Option ℕ)
  | .pollResult timestamp => some timestamp
  | _ => none

theorem PromiseResult.parse_eq_ok {α : Type} {result : PromiseResult} {ofValue : Value → Option α}
    {a : α} : result.parse ofValue = .ok a ↔
      ∃ value, result = .successful value ∧ ofValue value = some a := by
  cases result <;> simp [PromiseResult.parse]

end UncContracts.Lockup
