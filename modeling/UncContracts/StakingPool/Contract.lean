import UncContracts.Foundation.Holdings
import UncContracts.Foundation.Machine
import UncContracts.Foundation.Panic
import UncContracts.Sdk.Env

/-!
# The staking pool contract

The contract pools the tokens of its delegators and stakes them from its own account. A delegator
holds an unstaked balance and shares of the staked one. Every action first distributes the rewards
of the epochs since the last one, and most of them stake the new balance afterwards.

## Main definitions

* `StakingContract`: the contract's state
* `internalPing`, `internalDeposit`, `internalWithdraw`, `internalStake`, `innerUnstake`: the
  internal methods
* `new`, `call`: the initialization and the public methods
* `getAccount`, `getAccountTotalBalance`: the views of an account
* `pool`: the contract as a machine
-/

namespace UncContracts.StakingPool

open Foundation

/-- What the contract dedicates to guarantee that the share price never decreases. -/
def STAKE_SHARE_PRICE_GUARANTEE_FUND : ℕ := 1000000000000

/-- The number of epochs after which an unstaked balance becomes available. -/
def NUM_EPOCHS_TO_UNLOCK : ℕ := 4

/-- The inner account data of a delegate. -/
structure Account where
  unstaked : ℕ
  stakeShares : ℕ
  unstakedAvailableEpochHeight : ℕ
  deriving DecidableEq, Repr

instance : Inhabited Account := ⟨⟨0, 0, 0⟩⟩

/-- The fraction of the reward that goes to the owner of the pool. -/
structure RewardFeeFraction where
  numerator : ℕ
  denominator : ℕ
  deriving DecidableEq, Repr

namespace RewardFeeFraction

def assertValid (f : RewardFeeFraction) : Exec Unit := do
  ensure (f.denominator ≠ 0) "Denominator must be a positive number"
  ensure (f.numerator ≤ f.denominator) "The reward fee must be less or equal to 1"

def multiply (f : RewardFeeFraction) (value : ℕ) : Exec ℕ := do
  ensure (f.denominator ≠ 0) "division by zero"
  asU128 (f.numerator * value / f.denominator)

/-- A fraction between zero and one. -/
def Valid (f : RewardFeeFraction) : Prop := f.denominator ≠ 0 ∧ f.numerator ≤ f.denominator

@[simp] theorem assertValid_eq_ok {f : RewardFeeFraction} {u : Unit} :
    f.assertValid = .ok u ↔ f.Valid := by
  simp [assertValid, Valid]

theorem multiply_eq_ok {f : RewardFeeFraction} {value fee : ℕ} :
    f.multiply value = .ok fee ↔ f.denominator ≠ 0 ∧
      f.numerator * value / f.denominator ≤ u128Max ∧ f.numerator * value / f.denominator = fee := by
  simp [multiply]

end RewardFeeFraction

/-- A promise the contract issues. -/
inductive Promise
  /-- Stake the amount from the contract's account, then call `on_stake_action` if asked. -/
  | stake (amount : ℕ) (stakePublicKey : PublicKey) (thenOnStakeAction : Bool)
  | transfer (receiver : AccountId) (amount : ℕ)
  | vote (votingAccountId : AccountId) (isVote : Bool)
  deriving DecidableEq, Repr

/-- The contract's state. -/
structure StakingContract where
  ownerId : AccountId
  stakePublicKey : PublicKey
  lastEpochHeight : ℕ
  lastTotalBalance : ℕ
  totalStakeShares : ℕ
  totalStakedBalance : ℕ
  rewardFeeFraction : RewardFeeFraction
  accounts : Map AccountId Account
  paused : Bool

namespace StakingContract

variable (s : StakingContract)

/-! ## Internal methods -/

/-- The account of the given id, or a new default value. -/
def internalGetAccount (id : AccountId) : Account := (s.accounts.lookup id).getD default

/-- Saves the account; one with no balances is deleted to release storage. -/
def internalSaveAccount (id : AccountId) (account : Account) : StakingContract :=
  if 0 < account.unstaked ∨ 0 < account.stakeShares then
    { s with accounts := s.accounts.insert id account }
  else
    { s with accounts := s.accounts.erase id }

/-- The shares worth the staked amount, rounded down. -/
def numSharesFromStakedAmountRoundedDown (amount : ℕ) : Exec ℕ := do
  ensure (0 < s.totalStakedBalance) "The total staked balance can't be 0"
  asU128 (s.totalStakeShares * amount / s.totalStakedBalance)

/-- The shares worth the staked amount, rounded up. -/
def numSharesFromStakedAmountRoundedUp (amount : ℕ) : Exec ℕ := do
  ensure (0 < s.totalStakedBalance) "The total staked balance can't be 0"
  asU128
    ((s.totalStakeShares * amount + (s.totalStakedBalance - 1)) / s.totalStakedBalance)

/-- The staked amount the shares are worth, rounded down. -/
def stakedAmountFromNumSharesRoundedDown (numShares : ℕ) : Exec ℕ := do
  ensure (0 < s.totalStakeShares) "The total number of stake shares can't be 0"
  asU128 (s.totalStakedBalance * numShares / s.totalStakeShares)

/-- The staked amount the shares are worth, rounded up. -/
def stakedAmountFromNumSharesRoundedUp (numShares : ℕ) : Exec ℕ := do
  ensure (0 < s.totalStakeShares) "The total number of stake shares can't be 0"
  asU128
    ((s.totalStakedBalance * numShares + (s.totalStakeShares - 1)) / s.totalStakeShares)

/-- Restakes the total staked balance, unless the pool is paused. -/
def internalRestake : List Promise :=
  if s.paused then [] else [.stake s.totalStakedBalance s.stakePublicKey true]

/-- Asserts that the method was called by the owner. -/
def assertOwner (env : Env) : Exec Unit :=
  ensure (env.predecessorAccountId = s.ownerId) "Can only be called by the owner"

/-- The part of `internal_ping` that distributes a positive reward: the remaining reward goes to
all the shares first, then the owner buys shares for the fee at the new price. -/
def distributeReward (totalReward : ℕ) : Exec StakingContract := do
  let ownersFee ← s.rewardFeeFraction.multiply totalReward
  let remainingReward := totalReward - ownersFee
  let s := { s with totalStakedBalance := saturatingAdd s.totalStakedBalance remainingReward }
  let numShares ← s.numSharesFromStakedAmountRoundedDown ownersFee
  let s :=
    if 0 < numShares then
      let account := s.internalGetAccount s.ownerId
      let account := { account with stakeShares := saturatingAdd account.stakeShares numShares }
      let s := s.internalSaveAccount s.ownerId account
      { s with totalStakeShares := saturatingAdd s.totalStakeShares numShares }
    else s
  -- The fee is staked no matter whether the owner received any shares for it.
  return { s with totalStakedBalance := saturatingAdd s.totalStakedBalance ownersFee }

/-- The total balance, locked and unlocked, without a deposit not accounted for yet. -/
def totalBalance (env : Env) : ℕ :=
  saturatingAdd env.accountLockedBalance env.accountBalance - env.attachedDeposit

/-- Distributes rewards after the new epoch; returns whether the epoch is a new one. -/
def internalPing (env : Env) : Exec (StakingContract × Bool) :=
  if s.lastEpochHeight = env.epochHeight then pure (s, false)
  else do
    let s := { s with lastEpochHeight := env.epochHeight }
    ensure (s.lastTotalBalance ≤ totalBalance env)
      "The new total balance should not be less than the old total balance"
    let totalReward := totalBalance env - s.lastTotalBalance
    let s ← if 0 < totalReward then s.distributeReward totalReward else pure s
    return ({ s with lastTotalBalance := totalBalance env }, true)

/-- Credits the attached deposit to the predecessor; returns the amount. -/
def internalDeposit (env : Env) : StakingContract × ℕ :=
  let accountId := env.predecessorAccountId
  let account := s.internalGetAccount accountId
  let amount := env.attachedDeposit
  let account := { account with unstaked := saturatingAdd account.unstaked amount }
  let s := s.internalSaveAccount accountId account
  ({ s with lastTotalBalance := saturatingAdd s.lastTotalBalance amount }, amount)

/-- Transfers the amount from the predecessor's unstaked balance. -/
def internalWithdraw (env : Env) (amount : ℕ) : Exec (StakingContract × List Promise) := do
  ensure (0 < amount) "Withdrawal amount should be positive"
  let accountId := env.predecessorAccountId
  let account := s.internalGetAccount accountId
  ensure (amount ≤ account.unstaked) "Not enough unstaked balance to withdraw"
  ensure (account.unstakedAvailableEpochHeight ≤ env.epochHeight)
    "The unstaked balance is not yet available due to unstaking delay"
  let account := { account with unstaked := account.unstaked - amount }
  let s := s.internalSaveAccount accountId account
  return ({ s with lastTotalBalance := s.lastTotalBalance - amount }, [.transfer accountId amount])

/-- Stakes the amount from the predecessor's unstaked balance. -/
def internalStake (env : Env) (amount : ℕ) : Exec StakingContract := do
  ensure (0 < amount) "Staking amount should be positive"
  let accountId := env.predecessorAccountId
  let account := s.internalGetAccount accountId
  let numShares ← s.numSharesFromStakedAmountRoundedDown amount
  ensure (0 < numShares)
    "The calculated number of \"stake\" shares received for staking should be positive"
  let chargeAmount ← s.stakedAmountFromNumSharesRoundedDown numShares
  ensure (0 < chargeAmount)
    "Invariant violation. Calculated staked amount must be positive, because \"stake\" share price should be at least 1"
  ensure (chargeAmount ≤ account.unstaked) "Not enough unstaked balance to stake"
  let account := { account with
    unstaked := account.unstaked - chargeAmount
    stakeShares := saturatingAdd account.stakeShares numShares }
  let s := s.internalSaveAccount accountId account
  -- The difference to the charged amount is paid from the guarantee fund.
  let stakeAmount ← s.stakedAmountFromNumSharesRoundedUp numShares
  return { s with
    totalStakedBalance := saturatingAdd s.totalStakedBalance stakeAmount
    totalStakeShares := saturatingAdd s.totalStakeShares numShares }

/-- Unstakes the amount of the predecessor. -/
def innerUnstake (env : Env) (amount : ℕ) : Exec StakingContract := do
  ensure (0 < amount) "Unstaking amount should be positive"
  let accountId := env.predecessorAccountId
  let account := s.internalGetAccount accountId
  ensure (0 < s.totalStakedBalance) "The contract doesn't have staked balance"
  let numShares ← s.numSharesFromStakedAmountRoundedUp amount
  ensure (0 < numShares)
    "Invariant violation. The calculated number of \"stake\" shares for unstaking should be positive"
  ensure (numShares ≤ account.stakeShares) "Not enough staked balance to unstake"
  let receiveAmount ← s.stakedAmountFromNumSharesRoundedUp numShares
  ensure (0 < receiveAmount)
    "Invariant violation. Calculated staked amount must be positive, because \"stake\" share price should be at least 1"
  let availableEpochHeight ← checkedAdd u64Max env.epochHeight NUM_EPOCHS_TO_UNLOCK
  -- The shares are added to the account, as in the source.
  let account := { account with
    stakeShares := saturatingAdd account.stakeShares numShares
    unstaked := saturatingAdd account.unstaked receiveAmount
    unstakedAvailableEpochHeight := availableEpochHeight }
  let s := s.internalSaveAccount accountId account
  let unstakeAmount ← s.stakedAmountFromNumSharesRoundedDown numShares
  return { s with
    totalStakedBalance := s.totalStakedBalance - unstakeAmount
    totalStakeShares := s.totalStakeShares - numShares }

end StakingContract

open StakingContract

/-! ## Public methods -/

/-- The public methods that may change the contract, with their arguments. -/
inductive Method
  | ping
  | deposit
  | depositAndStake
  | withdrawAll
  | withdraw (amount : ℕ)
  | stakeAll
  | stake (amount : ℕ)
  | unstakeAll
  | unstake (amount : ℕ)
  /-- The callback of a stake promise, with whether the promises that it awaited succeeded. -/
  | onStakeAction (results : List Bool)
  | updateStakingKey (stakePublicKey : PublicKey)
  | updateRewardFeeFraction (rewardFeeFraction : RewardFeeFraction)
  | vote (votingAccountId : AccountId) (isVote : Bool)
  | pauseStaking
  | resumeStaking
  deriving DecidableEq, Repr

/-- A call of a public method. -/
structure Call where
  env : Env
  method : Method
  deriving DecidableEq, Repr

/-- Whether the method accepts an attached deposit. -/
def Method.payable : Method → Bool
  | .deposit | .depositAndStake => true
  | _ => false

/-- Initializes the contract. The balance but for the guarantee fund is staked for shares that
belong to nobody. -/
def StakingContract.new (env : Env) (stateExists : Bool) (ownerId : AccountId)
    (stakePublicKey : PublicKey) (rewardFeeFraction : RewardFeeFraction) :
    Exec (StakingContract × List Promise) := do
  ensure (stateExists = false) "Already initialized"
  rewardFeeFraction.assertValid
  ensure (isValidAccountId ownerId) "The owner account ID is invalid"
  let totalStakedBalance := env.accountBalance - STAKE_SHARE_PRICE_GUARANTEE_FUND
  ensure (env.accountLockedBalance = 0)
    "The staking pool shouldn't be staking at the initialization"
  let s : StakingContract :=
    { ownerId
      stakePublicKey
      lastEpochHeight := env.epochHeight
      lastTotalBalance := env.accountBalance
      totalStakeShares := totalStakedBalance
      totalStakedBalance
      rewardFeeFraction
      accounts := ∅
      paused := false }
  return (s, s.internalRestake)

namespace StakingContract

variable (s : StakingContract)

def ping (env : Env) : Exec (StakingContract × List Promise) := do
  let (s, needToRestake) ← s.internalPing env
  return (s, if needToRestake then s.internalRestake else [])

def deposit (env : Env) : Exec (StakingContract × List Promise) := do
  let (s, needToRestake) ← s.internalPing env
  let (s, _) := s.internalDeposit env
  return (s, if needToRestake then s.internalRestake else [])

def depositAndStake (env : Env) : Exec (StakingContract × List Promise) := do
  let (s, _) ← s.internalPing env
  let (s, amount) := s.internalDeposit env
  let s ← s.internalStake env amount
  return (s, s.internalRestake)

def withdrawAll (env : Env) : Exec (StakingContract × List Promise) := do
  let (s, needToRestake) ← s.internalPing env
  let account := s.internalGetAccount env.predecessorAccountId
  let (s, promises) ← s.internalWithdraw env account.unstaked
  return (s, promises ++ if needToRestake then s.internalRestake else [])

def withdraw (env : Env) (amount : ℕ) : Exec (StakingContract × List Promise) := do
  let (s, needToRestake) ← s.internalPing env
  let (s, promises) ← s.internalWithdraw env amount
  return (s, promises ++ if needToRestake then s.internalRestake else [])

def stakeAll (env : Env) : Exec (StakingContract × List Promise) := do
  let (s, _) ← s.internalPing env
  let account := s.internalGetAccount env.predecessorAccountId
  let s ← s.internalStake env account.unstaked
  return (s, s.internalRestake)

def stake (env : Env) (amount : ℕ) : Exec (StakingContract × List Promise) := do
  let (s, _) ← s.internalPing env
  let s ← s.internalStake env amount
  return (s, s.internalRestake)

def unstakeAll (env : Env) : Exec (StakingContract × List Promise) := do
  let (s, _) ← s.internalPing env
  let account := s.internalGetAccount env.predecessorAccountId
  let amount ← s.stakedAmountFromNumSharesRoundedDown account.stakeShares
  let s ← s.innerUnstake env amount
  return (s, s.internalRestake)

def unstake (env : Env) (amount : ℕ) : Exec (StakingContract × List Promise) := do
  let (s, _) ← s.internalPing env
  let s ← s.innerUnstake env amount
  return (s, s.internalRestake)

/-- The callback of a stake promise: a failed stake action with a locked balance is followed by
one that unstakes it. -/
def onStakeAction (env : Env) (results : List Bool) : Exec (StakingContract × List Promise) := do
  ensure (env.currentAccountId = env.predecessorAccountId) "Can be called only as a callback"
  ensure (results.length = 1) "Contract expected a result on the callback"
  let stakeActionSucceeded := results.head?.getD false
  return (s, if stakeActionSucceeded = false ∧ 0 < env.accountLockedBalance
    then [.stake 0 s.stakePublicKey false] else [])

def updateStakingKey (env : Env) (stakePublicKey : PublicKey) :
    Exec (StakingContract × List Promise) := do
  s.assertOwner env
  let (s, _) ← s.internalPing env
  let s := { s with stakePublicKey }
  return (s, s.internalRestake)

def updateRewardFeeFraction (env : Env) (rewardFeeFraction : RewardFeeFraction) :
    Exec (StakingContract × List Promise) := do
  s.assertOwner env
  rewardFeeFraction.assertValid
  let (s, needToRestake) ← s.internalPing env
  let s := { s with rewardFeeFraction }
  return (s, if needToRestake then s.internalRestake else [])

def vote (env : Env) (votingAccountId : AccountId) (isVote : Bool) :
    Exec (StakingContract × List Promise) := do
  s.assertOwner env
  ensure (isValidAccountId votingAccountId) "Invalid voting account ID"
  return (s, [.vote votingAccountId isVote])

def pauseStaking (env : Env) : Exec (StakingContract × List Promise) := do
  s.assertOwner env
  ensure (s.paused = false) "The staking is already paused"
  let (s, _) ← s.internalPing env
  let s := { s with paused := true }
  return (s, [.stake 0 s.stakePublicKey false])

def resumeStaking (env : Env) : Exec (StakingContract × List Promise) := do
  s.assertOwner env
  ensure (s.paused = true) "The staking is not paused"
  let (s, _) ← s.internalPing env
  let s := { s with paused := false }
  return (s, s.internalRestake)

/-- A call of a public method: the new state and the promises it issues. -/
def call (c : Call) : Exec (StakingContract × List Promise) := do
  ensure (c.method.payable ∨ c.env.attachedDeposit = 0) "Method doesn't accept deposit"
  match c.method with
  | .ping => s.ping c.env
  | .deposit => s.deposit c.env
  | .depositAndStake => s.depositAndStake c.env
  | .withdrawAll => s.withdrawAll c.env
  | .withdraw amount => s.withdraw c.env amount
  | .stakeAll => s.stakeAll c.env
  | .stake amount => s.stake c.env amount
  | .unstakeAll => s.unstakeAll c.env
  | .unstake amount => s.unstake c.env amount
  | .onStakeAction results => s.onStakeAction c.env results
  | .updateStakingKey stakePublicKey => s.updateStakingKey c.env stakePublicKey
  | .updateRewardFeeFraction fraction => s.updateRewardFeeFraction c.env fraction
  | .vote votingAccountId isVote => s.vote c.env votingAccountId isVote
  | .pauseStaking => s.pauseStaking c.env
  | .resumeStaking => s.resumeStaking c.env

/-! ## Views -/

/-- What the contract tells of an account. -/
structure HumanReadableAccount where
  accountId : AccountId
  unstakedBalance : ℕ
  /-- The worth of the account's shares, rounded down. -/
  stakedBalance : ℕ
  /-- Whether the unstaked balance is available. -/
  canWithdraw : Bool
  deriving DecidableEq, Repr

def getAccount (env : Env) (accountId : AccountId) : Exec HumanReadableAccount := do
  let account := s.internalGetAccount accountId
  let stakedBalance ← s.stakedAmountFromNumSharesRoundedDown account.stakeShares
  return {
    accountId
    unstakedBalance := account.unstaked
    stakedBalance
    canWithdraw := account.unstakedAvailableEpochHeight ≤ env.epochHeight }

def getAccountUnstakedBalance (env : Env) (accountId : AccountId) : Exec ℕ := do
  let account ← s.getAccount env accountId
  return account.unstakedBalance

def getAccountStakedBalance (env : Env) (accountId : AccountId) : Exec ℕ := do
  let account ← s.getAccount env accountId
  return account.stakedBalance

/-- The total balance of an account, staked and unstaked. -/
def getAccountTotalBalance (env : Env) (accountId : AccountId) : Exec ℕ := do
  let account ← s.getAccount env accountId
  checkedAdd u128Max account.unstakedBalance account.stakedBalance

def isAccountUnstakedBalanceAvailable (env : Env) (accountId : AccountId) : Exec Bool := do
  let account ← s.getAccount env accountId
  return account.canWithdraw

end StakingContract

/-- The contract as a machine over calls. -/
def pool : Machine StakingContract Call String where
  step s c := do
    let (t, _) ← s.call c
    return t

end UncContracts.StakingPool
