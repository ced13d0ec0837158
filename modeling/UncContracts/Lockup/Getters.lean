import UncContracts.Lockup.Types

/-!
# The amounts of the lockup

What the lockup holds back at a time, from the lockup, the release and the vesting; what is left of
the balance for its owner; and the checks and status changes that its methods share.

## Main definitions

* `getLockedAmount`, `getUnvestedAmount`, `getLockedVestedAmount`: the tokens held back
* `getOwnersBalance`, `getLiquidOwnersBalance`: the tokens of the owner
* `setStakingPoolStatus`, `setTerminationStatus`: the status changes
-/

namespace UncContracts.Lockup

open Foundation

namespace LockupContract

variable (s : LockupContract)

/-! ## Getters -/

/-- The balance of the account without the storage staking balance. -/
def getAccountBalance (env : Env) : ℕ := env.accountBalance - MIN_BALANCE_FOR_STORAGE

/-- The account of the selected staking pool. -/
def getStakingPoolAccountId : Option AccountId :=
  s.stakingInformation.map StakingInformation.stakingPoolAccountId

/-- The tokens deposited to the staking pool, as far as the contract knows. -/
def getKnownDepositedBalance : ℕ :=
  (s.stakingInformation.map StakingInformation.depositAmount).getD 0

/-- The status of the termination, if there is one. -/
def getTerminationStatus : Option TerminationStatus :=
  match s.vestingInformation with
  | .terminating information => some information.status
  | _ => none

/-- The tokens that will not vest, because the vesting was terminated. -/
def getTerminatedUnvestedBalance : ℕ :=
  match s.vestingInformation with
  | .terminating information => information.unvestedAmount
  | _ => 0

/-- The tokens that are not vested yet. Takes the schedule, in case the one inside is private. The
products are computed in 256 bits, where they fit. -/
def getUnvestedAmount (env : Env) (schedule : VestingSchedule) : Exec ℕ := do
  let lockupAmount := s.lockupInformation.lockupAmount
  match s.vestingInformation with
  | .terminating information => return information.unvestedAmount
  | .none => return 0
  | _ =>
    if env.blockTimestamp < schedule.cliffTimestamp then
      return lockupAmount
    else if schedule.endTimestamp ≤ env.blockTimestamp then
      return 0
    else do
      let timeLeft ← checkedSub schedule.endTimestamp env.blockTimestamp
      let totalTime ← checkedSub schedule.endTimestamp schedule.startTimestamp
      let unvestedAmount ← checkedDiv (lockupAmount * timeLeft) totalTime
      asU128 unvestedAmount

/-- The time from which the tokens are released, given when transfers were enabled. -/
def releaseStart (transfersTimestamp : ℕ) : ℕ :=
  max (min (transfersTimestamp + s.lockupInformation.lockupDuration) u64Max)
    (s.lockupInformation.lockupTimestamp.getD 0)

/-- The tokens that are not released yet, once the release has started. -/
def getUnreleasedAmount (env : Env) (lockupTimestamp : ℕ) : Exec ℕ :=
  match s.lockupInformation.releaseDuration with
  | some releaseDuration => do
    let endTimestamp := min (lockupTimestamp + releaseDuration) u64Max
    if endTimestamp ≤ env.blockTimestamp then
      return 0
    else do
      let timeLeft ← checkedSub endTimestamp env.blockTimestamp
      let unreleasedAmount ← checkedDiv (s.lockupInformation.lockupAmount * timeLeft)
        releaseDuration
      asU128 unreleasedAmount
  | none => return 0

/-- The tokens that the vesting locks. A private vesting is taken to have started before the
lockup. -/
def getVestingLocked (env : Env) : Exec ℕ :=
  match s.vestingInformation with
  | .vestingSchedule schedule => s.getUnvestedAmount env schedule
  | .terminating information => return information.unvestedAmount
  | _ => return 0

/-- The tokens that were not withdrawn, all of which are locked before the release starts. -/
def getNotWithdrawn : Exec ℕ :=
  checkedSub s.lockupInformation.lockupAmount s.lockupInformation.terminationWithdrawnTokens

/-- The tokens that are locked in the account due to lockup or vesting. -/
def getLockedAmount (env : Env) : Exec ℕ :=
  match s.lockupInformation.transfersInformation with
  | .transfersEnabled transfersTimestamp =>
    if s.releaseStart transfersTimestamp ≤ env.blockTimestamp then do
      let unreleasedAmount ← s.getUnreleasedAmount env (s.releaseStart transfersTimestamp)
      let unvestedAmount ← s.getVestingLocked env
      return max (unreleasedAmount - s.lockupInformation.terminationWithdrawnTokens) unvestedAmount
    else s.getNotWithdrawn
  | .transfersDisabled _ => s.getNotWithdrawn

/-- The tokens that are vested but still locked due to lockup. Takes the schedule, in case the one
inside is private. -/
def getLockedVestedAmount (env : Env) (schedule : VestingSchedule) : Exec ℕ := do
  let lockedAmount ← s.getLockedAmount env
  let unvestedAmount ← s.getUnvestedAmount env schedule
  checkedSub lockedAmount unvestedAmount

/-- The balance of the owner, with what is deposited to the pool and without what is locked. -/
def getOwnersBalance (env : Env) : Exec ℕ := do
  let lockedAmount ← s.getLockedAmount env
  return saturatingAdd env.accountBalance s.getKnownDepositedBalance - lockedAmount

/-- The tokens that the owner may transfer from the account. -/
def getLiquidOwnersBalance (env : Env) : Exec ℕ := do
  let ownersBalance ← s.getOwnersBalance env
  return min ownersBalance (getAccountBalance env)

def areTransfersEnabled : Bool :=
  match s.lockupInformation.transfersInformation with
  | .transfersEnabled _ => true
  | .transfersDisabled _ => false

/-! ## Checks and status changes -/

def setStakingPoolStatus (status : TransactionStatus) : Exec LockupContract := do
  let information ← expect s.stakingInformation "Staking pool should be selected"
  return { s with stakingInformation := some { information with status } }

def setTerminationStatus (status : TerminationStatus) : Exec LockupContract :=
  match s.vestingInformation with
  | .terminating information =>
    return { s with vestingInformation := .terminating { information with status } }
  | _ => .error "The vesting information is not at the terminating stage"

/-- The schedule of a vesting that is not terminated: the one inside, or the one presented if the
one inside is private. -/
def assertVesting (sha256 : List UInt8 → Hash)
    (vestingScheduleWithSalt : Option VestingScheduleWithSalt) : Exec VestingSchedule :=
  match s.vestingInformation with
  | .vestingHash hash =>
    match vestingScheduleWithSalt with
    | some vestingScheduleWithSalt => do
      ensure (vestingScheduleWithSalt.hash sha256 = hash)
        "Presented vesting schedule and salt don't match the hash"
      return vestingScheduleWithSalt.vestingSchedule
    | none => .error "Expected vesting schedule and salt, but it was not provided"
  | .vestingSchedule schedule => do
    ensure (vestingScheduleWithSalt = none) "Explicit vesting schedule exists"
    return schedule
  | .terminating _ => .error "Vesting was terminated"
  | .none => .error "Vesting is None"

def assertNoTermination : Exec Unit :=
  ensure (s.getTerminationStatus = none)
    "All operations are blocked until vesting termination is completed"

def assertTransfersEnabled : Exec Unit := ensure s.areTransfersEnabled "Transfers are disabled"

def assertTransfersDisabled : Exec Unit :=
  ensure (s.areTransfersEnabled = false) "Transfers are already enabled"

def assertNoStakingOrIdle : Exec Unit :=
  match s.stakingInformation with
  | some information => ensure (information.status = .idle)
      "Contract is currently busy with another operation"
  | none => return

def assertStakingPoolIsIdle : Exec Unit := do
  let information ← expect s.stakingInformation "Staking pool is not selected"
  ensure (information.status = .idle) "Contract is currently busy with another operation"

def assertStakingPoolIsNotSelected : Exec Unit :=
  ensure (s.stakingInformation = none) "Staking pool is already selected"

def assertCalledByFoundation (env : Env) : Exec Unit := do
  let foundationAccountId ← expect s.foundationAccountId
    "No UNC Foundation account is specified in the contract"
  ensure (env.predecessorAccountId = foundationAccountId) "Can only be called by UNC Foundation"

def assertOwner (env : Env) : Exec Unit :=
  ensure (env.predecessorAccountId = s.ownerAccountId) "Can only be called by the owner"

/-- `assert_self`. -/
def assertSelf (env : Env) : Exec Unit :=
  ensure (env.predecessorAccountId = env.currentAccountId) "Method is private"

/-! ## What the checks say -/

variable {s} {t : LockupContract} {env : Env}

@[simp] theorem setStakingPoolStatus_eq_ok {status : TransactionStatus} :
    s.setStakingPoolStatus status = .ok t ↔ ∃ information, s.stakingInformation = some information ∧
      { s with stakingInformation := some { information with status } } = t := by
  simp only [setStakingPoolStatus, bind_eq_ok, expect_eq_ok, pure_eq_ok]

@[simp] theorem setTerminationStatus_eq_ok {status : TerminationStatus} :
    s.setTerminationStatus status = .ok t ↔ ∃ information,
      s.vestingInformation = .terminating information ∧
      { s with vestingInformation := .terminating { information with status } } = t := by
  unfold setTerminationStatus
  cases s.vestingInformation <;> simp

theorem getTerminationStatus_eq_some {status : TerminationStatus} :
    s.getTerminationStatus = some status ↔ ∃ amount,
      s.vestingInformation = .terminating ⟨amount, status⟩ := by
  unfold getTerminationStatus
  cases s.vestingInformation with
  | terminating information =>
    obtain ⟨amount, status'⟩ := information
    simp
  | _ => simp

theorem getTerminationStatus_eq_none :
    s.getTerminationStatus = none ↔ ∀ information,
      s.vestingInformation ≠ .terminating information := by
  unfold getTerminationStatus
  cases s.vestingInformation <;> simp

@[simp] theorem assertStakingPoolIsIdle_eq_ok {u : Unit} :
    s.assertStakingPoolIsIdle = .ok u ↔ ∃ information, s.stakingInformation = some information ∧
      information.status = .idle := by
  simp [assertStakingPoolIsIdle]

@[simp] theorem assertNoStakingOrIdle_eq_ok {u : Unit} :
    s.assertNoStakingOrIdle = .ok u ↔ ∀ information, s.stakingInformation = some information →
      information.status = .idle := by
  unfold assertNoStakingOrIdle
  cases s.stakingInformation <;> simp

@[simp] theorem assertCalledByFoundation_eq_ok {u : Unit} :
    s.assertCalledByFoundation env = .ok u ↔
      s.foundationAccountId = some env.predecessorAccountId := by
  simp only [assertCalledByFoundation, bind_eq_ok, expect_eq_ok, ensure_eq_ok]
  constructor
  · rintro ⟨foundationAccountId, hsome, rfl⟩
    exact hsome
  · intro hsome
    exact ⟨_, hsome, rfl⟩

end LockupContract

end UncContracts.Lockup
