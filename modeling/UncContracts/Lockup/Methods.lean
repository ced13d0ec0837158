import UncContracts.Lockup.Getters

/-!
# The methods of the lockup

The methods of the owner and of the foundation, and the callbacks by which their calls of other
contracts return.

## Main definitions

* `LockupContract.new`: the initialization
* `callStakingPool`, `onStakingPoolOperation`: the shape of the owner's operations on the pool and
  of their callbacks
* `terminateVesting`, `terminationPrepareToWithdraw`, `terminationWithdraw`: the termination
* `LockupContract.call`, `LockupContract.resume`: the dispatch of calls and of callbacks
-/

namespace UncContracts.Lockup

open Foundation

namespace LockupContract

/-- The poll that a new lockup asks is an account. -/
def assertPoll : TransfersInformation → Exec Unit
  | .transfersDisabled transferPollAccountId =>
    ensure (isValidAccountId transferPollAccountId) "The transfer poll account ID is invalid"
  | .transfersEnabled _ => return

/-- The vesting of a new lockup. A schedule is taken as it is. -/
def newVesting (foundationAccountId : Option AccountId) :
    Option VestingScheduleOrHash → Exec VestingInformation
  | none => do
    ensure (foundationAccountId = none) "Foundation account can't be added without vesting schedule"
    return .none
  | some (.vestingHash hash) => return .vestingHash hash
  | some (.vestingSchedule schedule) => return .vestingSchedule schedule

/-- A vesting has its foundation. -/
def assertFoundation (vestingInformation : VestingInformation)
    (foundationAccountId : Option AccountId) : Exec Unit :=
  if vestingInformation = .none then return
  else do
    let foundationAccountId ← expect foundationAccountId
      "called `Option::unwrap()` on a `None` value"
    ensure (isValidAccountId foundationAccountId)
      "Foundation account should be added for vesting schedule"

/-- Initializes the lockup: all tokens of the account are locked. -/
def new (env : Env) (ownerAccountId : AccountId) (lockupDuration : ℕ)
    (lockupTimestamp : Option ℕ) (transfersInformation : TransfersInformation)
    (vestingSchedule : Option VestingScheduleOrHash) (releaseDuration : Option ℕ)
    (stakingPoolWhitelistAccountId : AccountId) (foundationAccountId : Option AccountId) :
    Exec LockupContract := do
  ensure (isValidAccountId ownerAccountId) "The account ID of the owner is invalid"
  ensure (isValidAccountId stakingPoolWhitelistAccountId)
    "The staking pool whitelist account ID is invalid"
  assertPoll transfersInformation
  let vestingInformation ← newVesting foundationAccountId vestingSchedule
  assertFoundation vestingInformation foundationAccountId
  return {
    ownerAccountId
    lockupInformation := {
      lockupAmount := env.accountBalance
      terminationWithdrawnTokens := 0
      lockupDuration
      releaseDuration
      lockupTimestamp
      transfersInformation }
    vestingInformation
    stakingPoolWhitelistAccountId
    stakingInformation := none
    foundationAccountId }

variable (s : LockupContract) (env : Env)

/-! ## The methods of the owner -/

/-- Selects a staking pool, after the whitelist was asked. -/
def selectStakingPool (stakingPoolAccountId : AccountId) : Exec (LockupContract × Promise) := do
  s.assertOwner env
  ensure (isValidAccountId stakingPoolAccountId) "The staking pool account ID is invalid"
  s.assertStakingPoolIsNotSelected
  s.assertNoTermination
  return (s, .functionCall s.stakingPoolWhitelistAccountId (.isWhitelisted stakingPoolAccountId) 0
    (.onWhitelistIsWhitelisted stakingPoolAccountId))

/-- Unselects the staking pool, where no known deposit is left. -/
def unselectStakingPool : Exec LockupContract := do
  s.assertOwner env
  s.assertStakingPoolIsIdle
  s.assertNoTermination
  ensure (s.getKnownDepositedBalance = 0) "There is still a deposit on the staking pool"
  return { s with stakingInformation := none }

/-- The operations on the selected pool: with the pool idle and no termination, it becomes busy and
the call made for its account is issued. Nothing is deposited but by the two deposits. -/
def callStakingPool (amount : Option ℕ) (attachedDeposit : ℕ) (promise : AccountId → Promise) :
    Exec (LockupContract × Promise) := do
  s.assertOwner env
  ensure (amount ≠ some 0) "Amount should be positive"
  s.assertStakingPoolIsIdle
  s.assertNoTermination
  ensure (attachedDeposit ≤ getAccountBalance env)
    "The balance that can be deposited to the staking pool is lower than the extra amount"
  let s ← s.setStakingPoolStatus .busy
  let information ← expect s.stakingInformation "called `Option::unwrap()` on a `None` value"
  return (s, promise information.stakingPoolAccountId)

def depositToStakingPool (amount : ℕ) : Exec (LockupContract × Promise) :=
  s.callStakingPool env (some amount) amount fun pool =>
    .functionCall pool .deposit amount (.onStakingPoolDeposit amount)

def depositAndStake (amount : ℕ) : Exec (LockupContract × Promise) :=
  s.callStakingPool env (some amount) amount fun pool =>
    .functionCall pool .depositAndStake amount (.onStakingPoolDepositAndStake amount)

-- The queries go to the current account, and ask about the account of the pool.
def refreshStakingPoolBalance : Exec (LockupContract × Promise) :=
  s.callStakingPool env none 0 fun pool =>
    .functionCall env.currentAccountId (.getAccountTotalBalance pool) 0 .onGetAccountTotalBalance

def withdrawFromStakingPool (amount : ℕ) : Exec (LockupContract × Promise) :=
  s.callStakingPool env (some amount) 0 fun pool =>
    .functionCall pool (.withdraw amount) 0 (.onStakingPoolWithdraw amount)

def withdrawAllFromStakingPool : Exec (LockupContract × Promise) :=
  s.callStakingPool env none 0 fun pool =>
    .functionCall env.currentAccountId (.getAccountUnstakedBalance pool) 0
      .onGetAccountUnstakedBalanceToWithdrawByOwner

def stake (amount : ℕ) : Exec (LockupContract × Promise) :=
  s.callStakingPool env (some amount) 0 fun pool =>
    .functionCall pool (.stake amount) 0 (.onStakingPoolStake amount)

def unstake (amount : ℕ) : Exec (LockupContract × Promise) :=
  s.callStakingPool env (some amount) 0 fun pool =>
    .functionCall pool (.unstake amount) 0 (.onStakingPoolUnstake amount)

def unstakeAll : Exec (LockupContract × Promise) :=
  s.callStakingPool env none 0 fun pool =>
    .functionCall pool .unstakeAll 0 .onStakingPoolUnstakeAll

/-- Asks whether the vote enabled transfers. -/
def checkTransfersVote : Exec (LockupContract × Promise) := do
  s.assertOwner env
  s.assertTransfersDisabled
  s.assertNoTermination
  -- The query goes to the current account, not to the account of the poll.
  return (s, .functionCall env.currentAccountId .getResult 0 .onGetResultFromTransferPoll)

/-- Transfers liquid tokens of the owner. -/
def transfer (amount : ℕ) (receiverId : AccountId) : Exec (LockupContract × Promise) := do
  s.assertOwner env
  ensure (0 < amount) "Amount should be positive"
  ensure (isValidAccountId receiverId) "The receiver account ID is invalid"
  s.assertTransfersEnabled
  s.assertNoStakingOrIdle
  s.assertNoTermination
  let liquidOwnersBalance ← s.getLiquidOwnersBalance env
  ensure (amount ≤ liquidOwnersBalance)
    s!"The available liquid balance {liquidOwnersBalance} is smaller than the requested transfer amount {amount}"
  return (s, .transfer receiverId amount none)

/-- Gives the owner the account, when nothing is locked any more. -/
def addFullAccessKey (newPublicKey : PublicKey) : Exec (LockupContract × Promise) := do
  s.assertOwner env
  s.assertTransfersEnabled
  s.assertNoStakingOrIdle
  s.assertNoTermination
  let lockedAmount ← s.getLockedAmount env
  ensure (lockedAmount = 0) "Tokens are still locked/unvested"
  return (s, .addFullAccessKey env.currentAccountId newPublicKey)

/-! ## The methods of the foundation -/

/-- Terminates the vesting and locks the unvested amount. -/
def terminateVesting (sha256 : List UInt8 → Hash)
    (vestingScheduleWithSalt : Option VestingScheduleWithSalt) : Exec LockupContract := do
  s.assertCalledByFoundation env
  let vestingSchedule ← s.assertVesting sha256 vestingScheduleWithSalt
  let unvestedAmount ← s.getUnvestedAmount env vestingSchedule
  ensure (0 < unvestedAmount) "The account is fully vested"
  let deficit := unvestedAmount - getAccountBalance env
  -- Tokens of the staking pool are to cover a deficit.
  let status := if 0 < deficit ∧ s.stakingInformation.isSome then
      TerminationStatus.vestingTerminatedWithDeficit
    else .readyToWithdraw
  return { s with vestingInformation := .terminating { unvestedAmount, status } }

/-- One of the two stages of getting the tokens from the staking pool. -/
def prepareStage (status : TerminationStatus) (promise : AccountId → Promise) :
    Exec (LockupContract × Promise) := do
  let s ← s.setTerminationStatus status
  let s ← s.setStakingPoolStatus .busy
  let information ← expect s.stakingInformation "called `Option::unwrap()` on a `None` value"
  return (s, promise information.stakingPoolAccountId)

/-- Unstakes everything from the staking pool at first, and withdraws it when called again. -/
def terminationPrepareToWithdraw : Exec (LockupContract × Promise) := do
  s.assertCalledByFoundation env
  s.assertStakingPoolIsIdle
  match s.getTerminationStatus with
  | none => .error "There is no termination in progress"
  | some .unstakingInProgress | some .withdrawingFromStakingPoolInProgress
  | some .withdrawingFromAccountInProgress => .error "Another transaction is already in progress."
  | some .readyToWithdraw => .error "The account is ready to withdraw unvested balance."
  | some .vestingTerminatedWithDeficit =>
    -- The queries go to the current account, and ask about the account of the pool.
    s.prepareStage .unstakingInProgress fun pool =>
      .functionCall env.currentAccountId (.getAccountStakedBalance pool) 0
        .onGetAccountStakedBalanceToUnstake
  | some .everythingUnstaked =>
    s.prepareStage .withdrawingFromStakingPoolInProgress fun pool =>
      .functionCall env.currentAccountId (.getAccountUnstakedBalance pool) 0
        .onGetAccountUnstakedBalanceToWithdraw

/-- Withdraws the unvested amount, as far as the balance allows. -/
def terminationWithdraw (receiverId : AccountId) : Exec (LockupContract × Promise) := do
  s.assertCalledByFoundation env
  ensure (isValidAccountId receiverId) "The receiver account ID is invalid"
  ensure (s.getTerminationStatus = some .readyToWithdraw)
    "Termination status is not ready to withdraw"
  let amount := min s.getTerminatedUnvestedBalance (getAccountBalance env)
  ensure (0 < amount) "The account doesn't have enough liquid balance to withdraw any amount"
  let s ← s.setTerminationStatus .withdrawingFromAccountInProgress
  return (s, .transfer receiverId amount (some (.onWithdrawUnvestedAmount amount receiverId)))

/-! ## The callbacks of the owner's methods -/

/-- Called after the whitelist was asked for a staking pool. -/
def onWhitelistIsWhitelisted (result : PromiseResult) (stakingPoolAccountId : AccountId) :
    Exec (LockupContract × Bool) := do
  let isWhitelisted ← result.parse Value.toBool
  assertSelf env
  ensure (isWhitelisted = true) "The given staking pool account ID is not whitelisted"
  s.assertStakingPoolIsNotSelected
  s.assertNoTermination
  let information : StakingInformation :=
    { stakingPoolAccountId, status := .idle, depositAmount := 0 }
  return ({ s with stakingInformation := some information }, true)

/-- The callbacks of the operations on the pool: the pool is idle again, and after a success the
information is updated. -/
def onStakingPoolOperation (result : PromiseResult)
    (update : StakingInformation → Exec StakingInformation) : Exec (LockupContract × Bool) := do
  assertSelf env
  let s ← s.setStakingPoolStatus .idle
  if result.isSuccess then
    let information ← expect s.stakingInformation "called `Option::unwrap()` on a `None` value"
    let information ← update information
    return ({ s with stakingInformation := some information }, true)
  else return (s, false)

/-- The pool holds the amount. -/
def deposited (amount : ℕ) (information : StakingInformation) : Exec StakingInformation := do
  let depositAmount ← checkedAdd u128Max information.depositAmount amount
  return { information with depositAmount }

/-- The pool gave the amount back. With its rewards that may be more than was deposited. -/
def withdrawn (amount : ℕ) (information : StakingInformation) : StakingInformation :=
  { information with depositAmount := information.depositAmount - amount }

def onStakingPoolDeposit (result : PromiseResult) (amount : ℕ) : Exec (LockupContract × Bool) :=
  s.onStakingPoolOperation env result (deposited amount)

def onStakingPoolDepositAndStake (result : PromiseResult) (amount : ℕ) :
    Exec (LockupContract × Bool) :=
  s.onStakingPoolOperation env result (deposited amount)

def onStakingPoolWithdraw (result : PromiseResult) (amount : ℕ) : Exec (LockupContract × Bool) :=
  s.onStakingPoolOperation env result fun information => return withdrawn amount information

-- The amounts of the next two are only logged.
def onStakingPoolStake (result : PromiseResult) (_amount : ℕ) : Exec (LockupContract × Bool) :=
  s.onStakingPoolOperation env result fun information => return information

def onStakingPoolUnstake (result : PromiseResult) (_amount : ℕ) : Exec (LockupContract × Bool) :=
  s.onStakingPoolOperation env result fun information => return information

def onStakingPoolUnstakeAll (result : PromiseResult) : Exec (LockupContract × Bool) :=
  s.onStakingPoolOperation env result fun information => return information

/-- Called after the poll was asked for its result. -/
def onGetResultFromTransferPoll (result : PromiseResult) : Exec (LockupContract × Bool) := do
  let pollResult ← result.parse Value.toPollResult
  assertSelf env
  s.assertTransfersDisabled
  match pollResult with
  | some transfersTimestamp =>
    return ({ s with lockupInformation := { s.lockupInformation with
        transfersInformation := .transfersEnabled transfersTimestamp } }, true)
  | none => return (s, false)

/-- Called after the pool was asked for the total balance. -/
def onGetAccountTotalBalance (result : PromiseResult) : Exec LockupContract := do
  let totalBalance ← result.parse Value.toAmount
  assertSelf env
  let s ← s.setStakingPoolStatus .idle
  let information ← expect s.stakingInformation "called `Option::unwrap()` on a `None` value"
  return { s with stakingInformation := some { information with depositAmount := totalBalance } }

/-- Called after the pool was asked for the unstaked balance. -/
def onGetAccountUnstakedBalanceToWithdrawByOwner (result : PromiseResult) :
    Exec (LockupContract × PromiseOrValue) := do
  let unstakedBalance ← result.parse Value.toAmount
  assertSelf env
  if 0 < unstakedBalance then
    let information ← expect s.stakingInformation "called `Option::unwrap()` on a `None` value"
    return (s, .promise (.functionCall information.stakingPoolAccountId (.withdraw unstakedBalance) 0
      (.onStakingPoolWithdraw unstakedBalance)))
  else
    let s ← s.setStakingPoolStatus .idle
    return (s, .value true)

/-! ## The callbacks of the foundation's methods -/

/-- Called after the pool was asked for a balance that a termination needs: a positive balance is
moved by a call of the pool, otherwise the next stage is reached. -/
def onGetBalanceForTermination (result : PromiseResult) (next : TerminationStatus)
    (promise : AccountId → ℕ → Promise) : Exec (LockupContract × PromiseOrValue) := do
  let balance ← result.parse Value.toAmount
  assertSelf env
  if 0 < balance then
    let information ← expect s.stakingInformation "called `Option::unwrap()` on a `None` value"
    return (s, .promise (promise information.stakingPoolAccountId balance))
  else
    let s ← s.setStakingPoolStatus .idle
    let s ← s.setTerminationStatus next
    return (s, .value true)

def onGetAccountStakedBalanceToUnstake (result : PromiseResult) :
    Exec (LockupContract × PromiseOrValue) :=
  s.onGetBalanceForTermination env result .everythingUnstaked fun pool stakedBalance =>
    .functionCall pool (.unstake stakedBalance) 0
      (.onStakingPoolUnstakeForTermination stakedBalance)

def onGetAccountUnstakedBalanceToWithdraw (result : PromiseResult) :
    Exec (LockupContract × PromiseOrValue) :=
  s.onGetBalanceForTermination env result .readyToWithdraw fun pool unstakedBalance =>
    .functionCall pool (.withdraw unstakedBalance) 0
      (.onStakingPoolWithdrawForTermination unstakedBalance)

/-- Called after a balance was moved for a termination: reaches the next stage, or goes back to the
one before. -/
def onMovedForTermination (result : PromiseResult) (next before : TerminationStatus)
    (update : StakingInformation → StakingInformation) : Exec (LockupContract × Bool) := do
  assertSelf env
  let s ← s.setStakingPoolStatus .idle
  if result.isSuccess then
    let s ← s.setTerminationStatus next
    let information ← expect s.stakingInformation "called `Option::unwrap()` on a `None` value"
    return ({ s with stakingInformation := some (update information) }, true)
  else
    let s ← s.setTerminationStatus before
    return (s, false)

def onStakingPoolUnstakeForTermination (result : PromiseResult) (_amount : ℕ) :
    Exec (LockupContract × Bool) :=
  s.onMovedForTermination env result .everythingUnstaked .vestingTerminatedWithDeficit id

def onStakingPoolWithdrawForTermination (result : PromiseResult) (amount : ℕ) :
    Exec (LockupContract × Bool) :=
  s.onMovedForTermination env result .readyToWithdraw .everythingUnstaked (withdrawn amount)

/-- Called after the foundation tried to withdraw the unvested amount. The receiver is only
logged. -/
def onWithdrawUnvestedAmount (result : PromiseResult) (amount : ℕ) (_receiverId : AccountId) :
    Exec (LockupContract × Bool) := do
  assertSelf env
  if result.isSuccess then
    let terminationWithdrawnTokens ← checkedAdd u128Max
      s.lockupInformation.terminationWithdrawnTokens amount
    let s := { s with lockupInformation := { s.lockupInformation with terminationWithdrawnTokens } }
    let unvestedAmount := s.getTerminatedUnvestedBalance
    if amount < unvestedAmount then
      let remaining : TerminationInformation :=
        { unvestedAmount := unvestedAmount - amount, status := .readyToWithdraw }
      return ({ s with vestingInformation := .terminating remaining }, true)
    else
      return ({ s with foundationAccountId := none, vestingInformation := .none }, true)
  else
    let s ← s.setTerminationStatus .readyToWithdraw
    return (s, false)

end LockupContract

/-! ## Dispatch -/

/-- The public methods, with their arguments. Other accounts may call the callbacks as well, with
the outcome of a promise of their own. -/
inductive Method
  | selectStakingPool (stakingPoolAccountId : AccountId)
  | unselectStakingPool
  | depositToStakingPool (amount : ℕ)
  | depositAndStake (amount : ℕ)
  | refreshStakingPoolBalance
  | withdrawFromStakingPool (amount : ℕ)
  | withdrawAllFromStakingPool
  | stake (amount : ℕ)
  | unstake (amount : ℕ)
  | unstakeAll
  | checkTransfersVote
  | transfer (amount : ℕ) (receiverId : AccountId)
  | addFullAccessKey (newPublicKey : PublicKey)
  | terminateVesting (vestingScheduleWithSalt : Option VestingScheduleWithSalt)
  | terminationPrepareToWithdraw
  | terminationWithdraw (receiverId : AccountId)
  | callback (callback : Callback) (result : PromiseResult)
  deriving DecidableEq, Repr

/-- The promise that a callback returned, if any. -/
def PromiseOrValue.toPromise : PromiseOrValue → Option Promise
  | .promise p => some p
  | .value _ => none

namespace LockupContract

variable (s : LockupContract) (env : Env)

/-- A callback, with the outcome it awaited. -/
def resume (callback : Callback) (result : PromiseResult) :
    Exec (LockupContract × Option Promise) :=
  let valued := fun (x : Exec (LockupContract × Bool)) => do let (s, _) ← x; return (s, none)
  let chained := fun (x : Exec (LockupContract × PromiseOrValue)) => do
    let (s, r) ← x
    return (s, r.toPromise)
  match callback with
  | .onWhitelistIsWhitelisted pool => valued (s.onWhitelistIsWhitelisted env result pool)
  | .onStakingPoolDeposit amount => valued (s.onStakingPoolDeposit env result amount)
  | .onStakingPoolDepositAndStake amount => valued (s.onStakingPoolDepositAndStake env result amount)
  | .onStakingPoolWithdraw amount => valued (s.onStakingPoolWithdraw env result amount)
  | .onStakingPoolStake amount => valued (s.onStakingPoolStake env result amount)
  | .onStakingPoolUnstake amount => valued (s.onStakingPoolUnstake env result amount)
  | .onStakingPoolUnstakeAll => valued (s.onStakingPoolUnstakeAll env result)
  | .onGetResultFromTransferPoll => valued (s.onGetResultFromTransferPoll env result)
  | .onGetAccountTotalBalance => do
    let s ← s.onGetAccountTotalBalance env result
    return (s, none)
  | .onGetAccountUnstakedBalanceToWithdrawByOwner =>
    chained (s.onGetAccountUnstakedBalanceToWithdrawByOwner env result)
  | .onWithdrawUnvestedAmount amount receiverId =>
    valued (s.onWithdrawUnvestedAmount env result amount receiverId)
  | .onGetAccountStakedBalanceToUnstake => chained (s.onGetAccountStakedBalanceToUnstake env result)
  | .onStakingPoolUnstakeForTermination amount =>
    valued (s.onStakingPoolUnstakeForTermination env result amount)
  | .onGetAccountUnstakedBalanceToWithdraw =>
    chained (s.onGetAccountUnstakedBalanceToWithdraw env result)
  | .onStakingPoolWithdrawForTermination amount =>
    valued (s.onStakingPoolWithdrawForTermination env result amount)

/-- A call of a method. No method accepts a deposit. -/
def call (sha256 : List UInt8 → Hash) (method : Method) :
    Exec (LockupContract × Option Promise) := do
  ensure (env.attachedDeposit = 0) "Method doesn't accept deposit"
  let issued := fun (x : Exec (LockupContract × Promise)) => do let (s, p) ← x; return (s, some p)
  match method with
  | .selectStakingPool pool => issued (s.selectStakingPool env pool)
  | .unselectStakingPool => do
    let s ← s.unselectStakingPool env
    return (s, none)
  | .depositToStakingPool amount => issued (s.depositToStakingPool env amount)
  | .depositAndStake amount => issued (s.depositAndStake env amount)
  | .refreshStakingPoolBalance => issued (s.refreshStakingPoolBalance env)
  | .withdrawFromStakingPool amount => issued (s.withdrawFromStakingPool env amount)
  | .withdrawAllFromStakingPool => issued (s.withdrawAllFromStakingPool env)
  | .stake amount => issued (s.stake env amount)
  | .unstake amount => issued (s.unstake env amount)
  | .unstakeAll => issued (s.unstakeAll env)
  | .checkTransfersVote => issued (s.checkTransfersVote env)
  | .transfer amount receiverId => issued (s.transfer env amount receiverId)
  | .addFullAccessKey newPublicKey => issued (s.addFullAccessKey env newPublicKey)
  | .terminateVesting schedule => do
    let s ← s.terminateVesting env sha256 schedule
    return (s, none)
  | .terminationPrepareToWithdraw => issued (s.terminationPrepareToWithdraw env)
  | .terminationWithdraw receiverId => issued (s.terminationWithdraw env receiverId)
  | .callback callback result => s.resume env callback result

end LockupContract

end UncContracts.Lockup
