import UncContracts.Lockup.Methods

/-!
# What the methods of the lockup do

Each accepted call and each callback that does not panic is one of a few effects on the contract,
with the promise it issues. What later modules prove of the methods they read off from these.

## Main definitions

* `Stage`: the two stages in which a termination gets the tokens from the staking pool
* `Callback.isPool`, `Callback.isQuery`, `Callback.settled`: the kinds of callbacks
* `Called`, `Resumed`: the effects of calls and of callbacks

## Main results

* `called_of_call`, `resumed_of_resume`: every accepted call and callback is one of the effects
-/

namespace UncContracts.Lockup

open Foundation LockupContract

/-! ## Stages and kinds of callbacks -/

/-- A stage of the termination at the staking pool. -/
inductive Stage
  | unstaking
  | withdrawing
  deriving DecidableEq, Repr

namespace Stage

/-- The status from which a stage starts. -/
def before : Stage → TerminationStatus
  | unstaking => .vestingTerminatedWithDeficit
  | withdrawing => .everythingUnstaked

/-- The status while a stage is in progress. -/
def during : Stage → TerminationStatus
  | unstaking => .unstakingInProgress
  | withdrawing => .withdrawingFromStakingPoolInProgress

/-- The status that a stage leads to. -/
def after : Stage → TerminationStatus
  | unstaking => .everythingUnstaked
  | withdrawing => .readyToWithdraw

/-- The query for the balance that a stage moves. -/
def query : Stage → AccountId → ExternalMethod
  | unstaking => .getAccountStakedBalance
  | withdrawing => .getAccountUnstakedBalance

def onQuery : Stage → Callback
  | unstaking => .onGetAccountStakedBalanceToUnstake
  | withdrawing => .onGetAccountUnstakedBalanceToWithdraw

/-- The call that moves a balance. -/
def move : Stage → ℕ → ExternalMethod
  | unstaking => .unstake
  | withdrawing => .withdraw

def onMove : Stage → ℕ → Callback
  | unstaking => .onStakingPoolUnstakeForTermination
  | withdrawing => .onStakingPoolWithdrawForTermination

/-- The known deposit after a stage moved an amount. -/
def settled : Stage → ℕ → ℕ → ℕ
  | unstaking, _, deposit => deposit
  | withdrawing, amount, deposit => deposit - amount

end Stage

namespace Callback

/-- The callback belongs to an operation at the staking pool. -/
def isPool : Callback → Bool
  | onWhitelistIsWhitelisted _ | onGetResultFromTransferPoll | onWithdrawUnvestedAmount _ _ => false
  | _ => true

/-- The callback awaits a query that is sent to the lockup itself. -/
def isQuery : Callback → Bool
  | onGetAccountTotalBalance | onGetAccountUnstakedBalanceToWithdrawByOwner
  | onGetAccountStakedBalanceToUnstake | onGetAccountUnstakedBalanceToWithdraw
  | onGetResultFromTransferPoll => true
  | _ => false

/-- The stage of the termination that the callback belongs to. -/
def stage : Callback → Option Stage
  | onGetAccountStakedBalanceToUnstake | onStakingPoolUnstakeForTermination _ => some .unstaking
  | onGetAccountUnstakedBalanceToWithdraw | onStakingPoolWithdrawForTermination _ =>
    some .withdrawing
  | _ => none

/-- The known deposit after a call by the owner that moves tokens or stakes them. There is none
where the callback belongs to no such call, or the deposit overflows. -/
def settled (success : Bool) (deposit : ℕ) : Callback → Option ℕ
  | onStakingPoolDeposit amount | onStakingPoolDepositAndStake amount =>
    if success then if deposit + amount ≤ u128Max then some (deposit + amount) else none
    else some deposit
  | onStakingPoolWithdraw amount => some (if success then deposit - amount else deposit)
  | onStakingPoolStake _ | onStakingPoolUnstake _ | onStakingPoolUnstakeAll => some deposit
  | _ => none

end Callback

/-- The call that an operation of the owner makes for the account of the pool. -/
def Method.poolPromise (currentAccountId pool : AccountId) : Method → Option Promise
  | depositToStakingPool amount =>
    some (.functionCall pool .deposit amount (.onStakingPoolDeposit amount))
  | depositAndStake amount =>
    some (.functionCall pool .depositAndStake amount (.onStakingPoolDepositAndStake amount))
  | refreshStakingPoolBalance => some (.functionCall currentAccountId
      (.getAccountTotalBalance pool) 0 .onGetAccountTotalBalance)
  | withdrawFromStakingPool amount =>
    some (.functionCall pool (.withdraw amount) 0 (.onStakingPoolWithdraw amount))
  | withdrawAllFromStakingPool => some (.functionCall currentAccountId
      (.getAccountUnstakedBalance pool) 0 .onGetAccountUnstakedBalanceToWithdrawByOwner)
  | stake amount => some (.functionCall pool (.stake amount) 0 (.onStakingPoolStake amount))
  | unstake amount => some (.functionCall pool (.unstake amount) 0 (.onStakingPoolUnstake amount))
  | unstakeAll => some (.functionCall pool .unstakeAll 0 .onStakingPoolUnstakeAll)
  | _ => none

/-! ## Initialization -/

/-- The lockup is a new one, with a vesting. -/
def LockupContract.IsNew (env : Env) (vesting : Option VestingScheduleOrHash)
    (s : LockupContract) : Prop :=
  ∃ owner duration lockupTimestamp transfers release whitelist foundation,
    LockupContract.new env owner duration lockupTimestamp transfers vesting release whitelist
      foundation = .ok s

/-- A new lockup has no pool and no termination, and all tokens of the account are locked. -/
theorem new_cases {env : Env} {vesting : Option VestingScheduleOrHash} {s : LockupContract}
    (h : s.IsNew env vesting) :
    s.stakingInformation = none ∧
      (s.vestingInformation = match vesting with
        | none => .none
        | some (.vestingHash hash) => .vestingHash hash
        | some (.vestingSchedule schedule) => .vestingSchedule schedule) ∧
      s.lockupInformation.lockupAmount = env.accountBalance ∧
      s.lockupInformation.terminationWithdrawnTokens = 0 := by
  obtain ⟨owner, duration, lockupTimestamp, transfers, release, whitelist, foundation, h⟩ := h
  simp only [LockupContract.new, bind_eq_ok, pure_eq_ok] at h
  obtain ⟨_, -, _, -, _, -, information, hvesting, _, -, rfl⟩ := h
  refine ⟨rfl, ?_, rfl, rfl⟩
  rcases vesting with _ | (hash | schedule)
  · simp only [newVesting, bind_eq_ok, pure_eq_ok] at hvesting
    obtain ⟨_, -, rfl⟩ := hvesting
    rfl
  · exact (pure_eq_ok.mp hvesting).symm
  · exact (pure_eq_ok.mp hvesting).symm

/-- A new lockup is not terminated. -/
theorem new_getTerminationStatus {env : Env} {vesting : Option VestingScheduleOrHash}
    {s : LockupContract} (h : s.IsNew env vesting) : s.getTerminationStatus = none := by
  obtain ⟨-, hvesting, -⟩ := new_cases h
  rw [getTerminationStatus_eq_none, hvesting]
  rcases vesting with _ | (hash | schedule) <;> simp

/-! ## Calls -/

/-- The contract with another status of its pool. -/
def LockupContract.withPool (s : LockupContract) (information : StakingInformation)
    (status : TransactionStatus) : LockupContract :=
  { s with stakingInformation := some { information with status } }

/-- The contract with a termination. -/
def LockupContract.withTermination (s : LockupContract) (unvestedAmount : ℕ)
    (status : TerminationStatus) : LockupContract :=
  { s with vestingInformation := .terminating { unvestedAmount, status } }

/-- The effect of an accepted call. -/
inductive Called (sha256 : List UInt8 → Hash) (env : Env) (s : LockupContract) :
    Method → LockupContract → Option Promise → Prop
  | select {pool : AccountId} (hnone : s.stakingInformation = none) :
    Called sha256 env s (.selectStakingPool pool) s (some (.functionCall
      s.stakingPoolWhitelistAccountId (.isWhitelisted pool) 0 (.onWhitelistIsWhitelisted pool)))
  | unselect {information : StakingInformation} (hsome : s.stakingInformation = some information)
    (hidle : information.status = .idle) (hdeposit : information.depositAmount = 0)
    (hvesting : s.getTerminationStatus = none) :
    Called sha256 env s .unselectStakingPool { s with stakingInformation := none } none
  | pool {method : Method} {information : StakingInformation} {p : Promise}
    (hsome : s.stakingInformation = some information) (hidle : information.status = .idle)
    (hvesting : s.getTerminationStatus = none)
    (hp : method.poolPromise env.currentAccountId information.stakingPoolAccountId = some p)
    (hbalance : p.tokens ≤ getAccountBalance env) :
    Called sha256 env s method (s.withPool information .busy) (some p)
  | checkVote : Called sha256 env s .checkTransfersVote s (some (.functionCall env.currentAccountId
      .getResult 0 .onGetResultFromTransferPoll))
  | transfer {amount locked : ℕ} {receiver : AccountId}
    (hidle : ∀ information, s.stakingInformation = some information → information.status = .idle)
    (hlocked : s.getLockedAmount env = .ok locked) (hpos : 0 < amount)
    (howners : amount ≤ saturatingAdd env.accountBalance s.getKnownDepositedBalance - locked)
    (hbalance : amount ≤ getAccountBalance env) :
    Called sha256 env s (.transfer amount receiver) s (some (.transfer receiver amount none))
  | addKey {key : PublicKey} : Called sha256 env s (.addFullAccessKey key) s
      (some (.addFullAccessKey env.currentAccountId key))
  | terminate {salted : Option VestingScheduleWithSalt} {schedule : VestingSchedule} {amount : ℕ}
    {status : TerminationStatus} (hvesting : s.assertVesting sha256 salted = .ok schedule)
    (hamount : s.getUnvestedAmount env schedule = .ok amount) (hpos : 0 < amount)
    (hstatus : status = .readyToWithdraw ∨
      status = .vestingTerminatedWithDeficit ∧ s.stakingInformation.isSome) :
    Called sha256 env s (.terminateVesting salted) (s.withTermination amount status) none
  | prepare {information : StakingInformation} {amount : ℕ} (stage : Stage)
    (hsome : s.stakingInformation = some information) (hidle : information.status = .idle)
    (hvesting : s.vestingInformation = .terminating ⟨amount, stage.before⟩) :
    Called sha256 env s .terminationPrepareToWithdraw
      ((s.withTermination amount stage.during).withPool information .busy)
      (some (.functionCall env.currentAccountId (stage.query information.stakingPoolAccountId) 0
        stage.onQuery))
  | payout {unvestedAmount amount : ℕ} {receiver : AccountId}
    (hvesting : s.vestingInformation = .terminating ⟨unvestedAmount, .readyToWithdraw⟩)
    (hamount : amount = min unvestedAmount (getAccountBalance env)) (hpos : 0 < amount) :
    Called sha256 env s (.terminationWithdraw receiver)
      (s.withTermination unvestedAmount .withdrawingFromAccountInProgress)
      (some (.transfer receiver amount (some (.onWithdrawUnvestedAmount amount receiver))))

section Calls

variable {sha256 : List UInt8 → Hash} {env : Env} {s t : LockupContract} {q : Option Promise}

/-- An operation on the pool. -/
theorem called_pool {method : Method} {amount : Option ℕ} {deposit : ℕ}
    {promise : AccountId → Promise} {p : Promise}
    (h : s.callStakingPool env amount deposit promise = .ok (t, p))
    (hp : ∀ pool, method.poolPromise env.currentAccountId pool = some (promise pool))
    (htokens : ∀ pool, (promise pool).tokens = deposit) : Called sha256 env s method t (some p) := by
  simp only [callStakingPool, assertNoTermination, bind_eq_ok, ensure_eq_ok, expect_eq_ok,
    assertStakingPoolIsIdle_eq_ok, setStakingPoolStatus_eq_ok, pure_eq_ok] at h
  obtain ⟨_, -, _, -, _, ⟨information, hsome, hidle⟩, _, hnone, _, hbalance, _,
    ⟨information', hsome', rfl⟩, _, hbusy, h⟩ := h
  cases hsome.symm.trans hsome'
  cases hbusy
  obtain ⟨rfl, rfl⟩ := Prod.mk.inj h
  exact .pool hsome hidle hnone (hp _) (by rw [htokens]; exact hbalance)

/-- A stage of the termination at the pool. -/
theorem called_prepare (stage : Stage) {information : StakingInformation} {amount : ℕ}
    {p : Promise} (hsome : s.stakingInformation = some information)
    (hidle : information.status = .idle)
    (hvesting : s.vestingInformation = .terminating ⟨amount, stage.before⟩)
    (h : s.prepareStage stage.during (fun pool => .functionCall env.currentAccountId
      (stage.query pool) 0 stage.onQuery) = .ok (t, p)) :
    Called sha256 env s .terminationPrepareToWithdraw t (some p) := by
  simp only [prepareStage, bind_eq_ok, expect_eq_ok, setStakingPoolStatus_eq_ok,
    setTerminationStatus_eq_ok, pure_eq_ok] at h
  obtain ⟨_, ⟨termination, hvesting', rfl⟩, _, ⟨information', hsome', rfl⟩, _, hbusy, h⟩ := h
  cases hsome.symm.trans hsome'
  cases hvesting.symm.trans hvesting'
  cases hbusy
  obtain ⟨rfl, rfl⟩ := Prod.mk.inj h
  exact .prepare stage hsome hidle hvesting

theorem called_terminate {salted : Option VestingScheduleWithSalt}
    (h : s.terminateVesting env sha256 salted = .ok t) :
    Called sha256 env s (.terminateVesting salted) t none := by
  simp only [terminateVesting, bind_eq_ok, ensure_eq_ok, pure_eq_ok] at h
  obtain ⟨_, -, schedule, hvesting, amount, hamount, _, hpos, rfl⟩ := h
  apply Called.terminate hvesting hamount hpos
  split
  · next hdeficit => exact .inr ⟨rfl, hdeficit.2⟩
  · exact .inl rfl

theorem called_payout {receiver : AccountId} {p : Promise}
    (h : s.terminationWithdraw env receiver = .ok (t, p)) :
    Called sha256 env s (.terminationWithdraw receiver) t (some p) := by
  simp only [terminationWithdraw, bind_eq_ok, ensure_eq_ok, setTerminationStatus_eq_ok,
    pure_eq_ok] at h
  obtain ⟨_, -, _, -, _, hready, _, hpos, _, ⟨⟨unvestedAmount, status⟩, hvesting, rfl⟩, h⟩ := h
  obtain ⟨rfl, rfl⟩ := Prod.mk.inj h
  obtain ⟨_, hvesting'⟩ := getTerminationStatus_eq_some.mp hready
  cases hvesting.symm.trans hvesting'
  have hunvested : s.getTerminatedUnvestedBalance = unvestedAmount := by
    simp [getTerminatedUnvestedBalance, hvesting]
  exact .payout hvesting (by rw [hunvested]) hpos

theorem called_transfer {amount : ℕ} {receiver : AccountId} {p : Promise}
    (h : s.transfer env amount receiver = .ok (t, p)) :
    Called sha256 env s (.transfer amount receiver) t (some p) := by
  simp only [LockupContract.transfer, getLiquidOwnersBalance, getOwnersBalance, bind_eq_ok,
    ensure_eq_ok, assertNoStakingOrIdle_eq_ok, pure_eq_ok] at h
  obtain ⟨_, -, _, hpos, _, -, _, -, _, hidle, _, -, _, ⟨_, ⟨locked, hlocked, rfl⟩, rfl⟩, _,
    hliquid, h⟩ := h
  obtain ⟨rfl, rfl⟩ := Prod.mk.inj h
  obtain ⟨howners, hbalance⟩ := Nat.le_min.mp hliquid
  exact .transfer hidle hlocked hpos howners hbalance

end Calls

/-! ## Callbacks -/

/-- The effect of a callback that does not panic. -/
inductive Resumed (s : LockupContract) :
    Callback → PromiseResult → LockupContract → Option Promise → Prop
  | selected {pool : AccountId} (hnone : s.stakingInformation = none)
    (hvesting : s.getTerminationStatus = none) :
    Resumed s (.onWhitelistIsWhitelisted pool) (.successful (.bool true))
      { s with stakingInformation := some ⟨pool, .idle, 0⟩ } none
  | settled {callback : Callback} {result : PromiseResult} {information : StakingInformation}
    {deposit : ℕ} (hsome : s.stakingInformation = some information)
    (hdeposit : callback.settled result.isSuccess information.depositAmount = some deposit) :
    Resumed s callback result
      (s.withPool { information with depositAmount := deposit } .idle) none
  | voted {timestamp : ℕ} (hdisabled : s.areTransfersEnabled = false) :
    Resumed s .onGetResultFromTransferPoll (.successful (.pollResult (some timestamp)))
      { s with lockupInformation := { s.lockupInformation with
          transfersInformation := .transfersEnabled timestamp } } none
  | notVoted : Resumed s .onGetResultFromTransferPoll (.successful (.pollResult none)) s none
  | refreshed {information : StakingInformation} {total : ℕ}
    (hsome : s.stakingInformation = some information) :
    Resumed s .onGetAccountTotalBalance (.successful (.amount total))
      (s.withPool { information with depositAmount := total } .idle) none
  | withdrawing {information : StakingInformation} {unstaked : ℕ}
    (hsome : s.stakingInformation = some information) (hpos : 0 < unstaked) :
    Resumed s .onGetAccountUnstakedBalanceToWithdrawByOwner (.successful (.amount unstaked)) s
      (some (.functionCall information.stakingPoolAccountId (.withdraw unstaked) 0
        (.onStakingPoolWithdraw unstaked)))
  | nothingUnstaked {information : StakingInformation}
    (hsome : s.stakingInformation = some information) :
    Resumed s .onGetAccountUnstakedBalanceToWithdrawByOwner (.successful (.amount 0))
      (s.withPool information .idle) none
  | moving {information : StakingInformation} {amount : ℕ} (stage : Stage)
    (hsome : s.stakingInformation = some information) (hpos : 0 < amount) :
    Resumed s stage.onQuery (.successful (.amount amount)) s
      (some (.functionCall information.stakingPoolAccountId (stage.move amount) 0
        (stage.onMove amount)))
  | nothingToMove {information : StakingInformation} {termination : TerminationInformation}
    (stage : Stage) (hsome : s.stakingInformation = some information)
    (hvesting : s.vestingInformation = .terminating termination) :
    Resumed s stage.onQuery (.successful (.amount 0))
      ((s.withPool information .idle).withTermination termination.unvestedAmount stage.after) none
  | moved {information : StakingInformation} {termination : TerminationInformation}
    {value : Value} {amount : ℕ} (stage : Stage) (hsome : s.stakingInformation = some information)
    (hvesting : s.vestingInformation = .terminating termination) :
    Resumed s (stage.onMove amount) (.successful value)
      ((s.withPool { information with
          depositAmount := stage.settled amount information.depositAmount } .idle).withTermination
        termination.unvestedAmount stage.after) none
  | notMoved {information : StakingInformation} {termination : TerminationInformation}
    {amount : ℕ} (stage : Stage) (hsome : s.stakingInformation = some information)
    (hvesting : s.vestingInformation = .terminating termination) :
    Resumed s (stage.onMove amount) .failed
      ((s.withPool information .idle).withTermination termination.unvestedAmount stage.before) none
  | paid {amount : ℕ} {receiver : AccountId} {value : Value} {vesting : VestingInformation}
    {foundation : Option AccountId}
    (hmax : s.lockupInformation.terminationWithdrawnTokens + amount ≤ u128Max)
    (hvesting : (amount < s.getTerminatedUnvestedBalance ∧
        vesting = .terminating ⟨s.getTerminatedUnvestedBalance - amount, .readyToWithdraw⟩) ∨
      s.getTerminatedUnvestedBalance ≤ amount ∧ vesting = .none) :
    Resumed s (.onWithdrawUnvestedAmount amount receiver) (.successful value)
      { s with
        lockupInformation := { s.lockupInformation with
          terminationWithdrawnTokens := s.lockupInformation.terminationWithdrawnTokens + amount }
        vestingInformation := vesting
        foundationAccountId := foundation } none
  | notPaid {amount : ℕ} {receiver : AccountId} {termination : TerminationInformation}
    (hvesting : s.vestingInformation = .terminating termination) :
    Resumed s (.onWithdrawUnvestedAmount amount receiver) .failed
      (s.withTermination termination.unvestedAmount .readyToWithdraw) none

section Callbacks

variable {env : Env} {s t : LockupContract} {q : Option Promise} {result : PromiseResult}

/-- An operation of the owner returns. -/
theorem resumed_settled {callback : Callback} {b : Bool}
    {update : StakingInformation → Exec StakingInformation}
    (h : s.onStakingPoolOperation env result update = .ok (t, b))
    (hsuccess : ∀ information updated, result.isSuccess = true →
      update information = .ok updated →
      callback.settled true information.depositAmount = some updated.depositAmount ∧
        updated = { information with depositAmount := updated.depositAmount })
    (hfailure : ∀ deposit, result.isSuccess = false →
      callback.settled false deposit = some deposit) :
    Resumed s callback result t none := by
  simp only [onStakingPoolOperation, bind_eq_ok, setStakingPoolStatus_eq_ok] at h
  obtain ⟨_, -, _, ⟨information, hsome, rfl⟩, h⟩ := h
  split at h
  · next hs =>
    simp only [bind_eq_ok, expect_eq_ok, pure_eq_ok] at h
    obtain ⟨_, hidle, updated, hupdate, h⟩ := h
    cases hidle
    obtain ⟨rfl, rfl⟩ := Prod.mk.inj h
    obtain ⟨hsettled, heq⟩ := hsuccess _ _ hs hupdate
    have hresumed : Resumed s callback result _ none := .settled hsome (by rw [hs]; exact hsettled)
    rw [heq]
    exact hresumed
  · next hs =>
    rw [Bool.not_eq_true] at hs
    obtain ⟨rfl, rfl⟩ := Prod.mk.inj (pure_eq_ok.mp h)
    exact .settled hsome (by rw [hs]; exact hfailure _ hs)

/-- A deposit returns. -/
theorem resumed_deposited {callback : Callback} {amount : ℕ} {b : Bool}
    (h : s.onStakingPoolOperation env result (deposited amount) = .ok (t, b))
    (hc : callback = .onStakingPoolDeposit amount ∨
      callback = .onStakingPoolDepositAndStake amount) : Resumed s callback result t none := by
  refine resumed_settled h ?_ ?_
  · intro information updated _ hupdate
    simp only [deposited, bind_eq_ok, checkedAdd_eq_ok, pure_eq_ok] at hupdate
    obtain ⟨_, ⟨hmax, rfl⟩, rfl⟩ := hupdate
    rcases hc with rfl | rfl <;> simp [Callback.settled, hmax]
  · intro deposit _
    rcases hc with rfl | rfl <;> rfl

/-- A balance that a termination needs is known. -/
theorem resumed_query (stage : Stage) {r : PromiseOrValue}
    (h : s.onGetBalanceForTermination env result stage.after (fun pool amount => .functionCall pool
      (stage.move amount) 0 (stage.onMove amount)) = .ok (t, r)) :
    Resumed s stage.onQuery result t r.toPromise := by
  simp only [onGetBalanceForTermination, bind_eq_ok, PromiseResult.parse_eq_ok] at h
  obtain ⟨amount, ⟨value, rfl, hvalue⟩, _, -, h⟩ := h
  obtain rfl : value = .amount amount := by
    cases value <;> simp_all [Value.toAmount]
  split at h
  · next hpos =>
    simp only [bind_eq_ok, expect_eq_ok, pure_eq_ok] at h
    obtain ⟨information, hsome, h⟩ := h
    obtain ⟨rfl, rfl⟩ := Prod.mk.inj h
    exact .moving stage hsome hpos
  · next hpos =>
    obtain rfl := Nat.eq_zero_of_not_pos hpos
    simp only [bind_eq_ok, setStakingPoolStatus_eq_ok, setTerminationStatus_eq_ok,
      pure_eq_ok] at h
    obtain ⟨_, ⟨information, hsome, rfl⟩, _, ⟨termination, hvesting, rfl⟩, h⟩ := h
    obtain ⟨rfl, rfl⟩ := Prod.mk.inj h
    exact .nothingToMove stage hsome hvesting

/-- A balance was moved for a termination, or was not. -/
theorem resumed_moved (stage : Stage) {amount : ℕ} {b : Bool}
    {update : StakingInformation → StakingInformation}
    (h : s.onMovedForTermination env result stage.after stage.before update = .ok (t, b))
    (hupdate : ∀ information, update information =
      { information with depositAmount := stage.settled amount information.depositAmount }) :
    Resumed s (stage.onMove amount) result t none := by
  simp only [onMovedForTermination, bind_eq_ok, setStakingPoolStatus_eq_ok] at h
  obtain ⟨_, -, _, ⟨information, hsome, rfl⟩, h⟩ := h
  cases result with
  | successful value =>
    simp only [PromiseResult.isSuccess, if_true, bind_eq_ok, setTerminationStatus_eq_ok,
      expect_eq_ok, pure_eq_ok] at h
    obtain ⟨_, ⟨termination, hvesting, rfl⟩, _, hidle, h⟩ := h
    cases hidle
    obtain ⟨rfl, rfl⟩ := Prod.mk.inj h
    rw [hupdate]
    exact .moved stage hsome hvesting
  | failed =>
    simp only [PromiseResult.isSuccess, Bool.false_eq_true, if_false, bind_eq_ok,
      setTerminationStatus_eq_ok, pure_eq_ok] at h
    obtain ⟨_, ⟨termination, hvesting, rfl⟩, h⟩ := h
    obtain ⟨rfl, rfl⟩ := Prod.mk.inj h
    exact .notMoved stage hsome hvesting

/-- The payout of the unvested amount returns. -/
theorem resumed_payout {amount : ℕ} {receiver : AccountId} {b : Bool}
    (h : s.onWithdrawUnvestedAmount env result amount receiver = .ok (t, b)) :
    Resumed s (.onWithdrawUnvestedAmount amount receiver) result t none := by
  simp only [onWithdrawUnvestedAmount, bind_eq_ok] at h
  obtain ⟨_, -, h⟩ := h
  cases result with
  | successful value =>
    simp only [PromiseResult.isSuccess, if_true, bind_eq_ok, checkedAdd_eq_ok] at h
    obtain ⟨_, ⟨hmax, rfl⟩, h⟩ := h
    split at h
    · next hlt =>
      obtain ⟨rfl, rfl⟩ := Prod.mk.inj (pure_eq_ok.mp h)
      exact .paid hmax (.inl ⟨hlt, rfl⟩)
    · next hle =>
      obtain ⟨rfl, rfl⟩ := Prod.mk.inj (pure_eq_ok.mp h)
      exact .paid hmax (.inr ⟨Nat.not_lt.mp hle, rfl⟩)
  | failed =>
    simp only [PromiseResult.isSuccess, Bool.false_eq_true, if_false, bind_eq_ok,
      setTerminationStatus_eq_ok, pure_eq_ok] at h
    obtain ⟨_, ⟨termination, hvesting, rfl⟩, h⟩ := h
    obtain ⟨rfl, rfl⟩ := Prod.mk.inj h
    exact .notPaid hvesting

theorem resumed_selected {pool : AccountId} {b : Bool}
    (h : s.onWhitelistIsWhitelisted env result pool = .ok (t, b)) :
    Resumed s (.onWhitelistIsWhitelisted pool) result t none := by
  simp only [onWhitelistIsWhitelisted, assertStakingPoolIsNotSelected, assertNoTermination,
    bind_eq_ok, ensure_eq_ok, PromiseResult.parse_eq_ok, pure_eq_ok] at h
  obtain ⟨_, ⟨value, rfl, hvalue⟩, _, -, _, rfl, _, hnone, _, hvesting, h⟩ := h
  obtain rfl : value = .bool true := by
    cases value <;> simp_all [Value.toBool]
  obtain ⟨rfl, rfl⟩ := Prod.mk.inj h
  exact .selected hnone hvesting

theorem resumed_voted {b : Bool} (h : s.onGetResultFromTransferPoll env result = .ok (t, b)) :
    Resumed s .onGetResultFromTransferPoll result t none := by
  simp only [onGetResultFromTransferPoll, assertTransfersDisabled, bind_eq_ok, ensure_eq_ok,
    PromiseResult.parse_eq_ok] at h
  obtain ⟨pollResult, ⟨value, rfl, hvalue⟩, _, -, _, hdisabled, h⟩ := h
  obtain rfl : value = .pollResult pollResult := by
    cases value <;> simp_all [Value.toPollResult]
  cases pollResult with
  | some timestamp =>
    obtain ⟨rfl, rfl⟩ := Prod.mk.inj (pure_eq_ok.mp h)
    exact .voted hdisabled
  | none =>
    obtain ⟨rfl, rfl⟩ := Prod.mk.inj (pure_eq_ok.mp h)
    exact .notVoted

theorem resumed_refreshed (h : s.onGetAccountTotalBalance env result = .ok t) :
    Resumed s .onGetAccountTotalBalance result t none := by
  simp only [onGetAccountTotalBalance, bind_eq_ok, PromiseResult.parse_eq_ok,
    setStakingPoolStatus_eq_ok, expect_eq_ok, pure_eq_ok] at h
  obtain ⟨total, ⟨value, rfl, hvalue⟩, _, -, _, ⟨information, hsome, rfl⟩, _, hidle, rfl⟩ := h
  obtain rfl : value = .amount total := by
    cases value <;> simp_all [Value.toAmount]
  cases hidle
  exact .refreshed hsome

theorem resumed_withdrawAll {r : PromiseOrValue}
    (h : s.onGetAccountUnstakedBalanceToWithdrawByOwner env result = .ok (t, r)) :
    Resumed s .onGetAccountUnstakedBalanceToWithdrawByOwner result t r.toPromise := by
  simp only [onGetAccountUnstakedBalanceToWithdrawByOwner, bind_eq_ok,
    PromiseResult.parse_eq_ok] at h
  obtain ⟨unstaked, ⟨value, rfl, hvalue⟩, _, -, h⟩ := h
  obtain rfl : value = .amount unstaked := by
    cases value <;> simp_all [Value.toAmount]
  split at h
  · next hpos =>
    simp only [bind_eq_ok, expect_eq_ok, pure_eq_ok] at h
    obtain ⟨information, hsome, h⟩ := h
    obtain ⟨rfl, rfl⟩ := Prod.mk.inj h
    exact .withdrawing hsome hpos
  · next hpos =>
    obtain rfl := Nat.eq_zero_of_not_pos hpos
    simp only [bind_eq_ok, setStakingPoolStatus_eq_ok, pure_eq_ok] at h
    obtain ⟨_, ⟨information, hsome, rfl⟩, h⟩ := h
    obtain ⟨rfl, rfl⟩ := Prod.mk.inj h
    exact .nothingUnstaked hsome

/-- Every callback that does not panic is one of the effects. -/
theorem resumed_of_resume {callback : Callback}
    (h : s.resume env callback result = .ok (t, q)) : Resumed s callback result t q := by
  cases callback <;> simp only [resume, bind_eq_ok, pure_eq_ok, Prod.mk.injEq] at h
  case onGetAccountTotalBalance =>
    obtain ⟨_, hx, rfl, rfl⟩ := h
    exact resumed_refreshed hx
  all_goals obtain ⟨⟨s', b⟩, hx, rfl, rfl⟩ := h
  case onWhitelistIsWhitelisted pool => exact resumed_selected hx
  case onStakingPoolDeposit amount => exact resumed_deposited hx (.inl rfl)
  case onStakingPoolDepositAndStake amount => exact resumed_deposited hx (.inr rfl)
  case onStakingPoolWithdraw amount =>
    refine resumed_settled hx ?_ (fun _ _ => rfl)
    rintro information updated - hupdate
    cases pure_eq_ok.mp hupdate
    exact ⟨rfl, rfl⟩
  case onGetResultFromTransferPoll => exact resumed_voted hx
  case onGetAccountUnstakedBalanceToWithdrawByOwner => exact resumed_withdrawAll hx
  case onWithdrawUnvestedAmount amount receiver => exact resumed_payout hx
  case onGetAccountStakedBalanceToUnstake => exact resumed_query .unstaking hx
  case onStakingPoolUnstakeForTermination amount =>
    exact resumed_moved .unstaking hx fun _ => rfl
  case onGetAccountUnstakedBalanceToWithdraw => exact resumed_query .withdrawing hx
  case onStakingPoolWithdrawForTermination amount =>
    exact resumed_moved .withdrawing hx fun _ => rfl
  all_goals
    refine resumed_settled hx ?_ (fun _ _ => rfl)
    rintro information updated - hupdate
    cases pure_eq_ok.mp hupdate
    exact ⟨rfl, rfl⟩

/-- A callback that another account calls panics. -/
theorem resume_self {callback : Callback} (h : s.resume env callback result = .ok (t, q)) :
    env.predecessorAccountId = env.currentAccountId := by
  cases callback <;>
    simp only [resume, onWhitelistIsWhitelisted, onStakingPoolDeposit,
      onStakingPoolDepositAndStake, onStakingPoolWithdraw, onStakingPoolStake,
      onStakingPoolUnstake, onStakingPoolUnstakeAll, onGetResultFromTransferPoll,
      onGetAccountTotalBalance, onGetAccountUnstakedBalanceToWithdrawByOwner,
      onWithdrawUnvestedAmount, onGetAccountStakedBalanceToUnstake,
      onStakingPoolUnstakeForTermination, onGetAccountUnstakedBalanceToWithdraw,
      onStakingPoolWithdrawForTermination, onStakingPoolOperation, onGetBalanceForTermination,
      onMovedForTermination, assertSelf, bind_eq_ok, ensure_eq_ok] at h
  all_goals grind

end Callbacks

/-- Every accepted call of another account is one of the effects. -/
theorem called_of_call {sha256 : List UInt8 → Hash} {env : Env} {s t : LockupContract}
    {method : Method} {q : Option Promise}
    (hother : env.predecessorAccountId ≠ env.currentAccountId)
    (h : s.call env sha256 method = .ok (t, q)) : Called sha256 env s method t q := by
  simp only [call, bind_eq_ok, ensure_eq_ok] at h
  obtain ⟨_, -, h⟩ := h
  cases method <;> simp only [bind_eq_ok, pure_eq_ok, Prod.mk.injEq] at h
  case callback callback result => exact absurd (resume_self h) hother
  case unselectStakingPool =>
    obtain ⟨_, hx, rfl, rfl⟩ := h
    simp only [unselectStakingPool, assertNoTermination, bind_eq_ok, ensure_eq_ok,
      assertStakingPoolIsIdle_eq_ok, pure_eq_ok] at hx
    obtain ⟨_, -, _, ⟨information, hsome, hidle⟩, _, hvesting, _, hdeposit, rfl⟩ := hx
    refine .unselect hsome hidle ?_ hvesting
    simpa [getKnownDepositedBalance, hsome] using hdeposit
  case terminateVesting salted =>
    obtain ⟨_, hx, rfl, rfl⟩ := h
    exact called_terminate hx
  all_goals obtain ⟨⟨s', p⟩, hx, rfl, rfl⟩ := h
  case selectStakingPool pool =>
    simp only [selectStakingPool, assertStakingPoolIsNotSelected, bind_eq_ok, ensure_eq_ok,
      pure_eq_ok] at hx
    obtain ⟨_, -, _, -, _, hnone, _, -, hx⟩ := hx
    obtain ⟨rfl, rfl⟩ := Prod.mk.inj hx
    exact .select hnone
  case checkTransfersVote =>
    simp only [checkTransfersVote, bind_eq_ok, pure_eq_ok] at hx
    obtain ⟨_, -, _, -, _, -, hx⟩ := hx
    obtain ⟨rfl, rfl⟩ := Prod.mk.inj hx
    exact .checkVote
  case addFullAccessKey key =>
    simp only [addFullAccessKey, bind_eq_ok, pure_eq_ok] at hx
    obtain ⟨_, -, _, -, _, -, _, -, _, -, _, -, hx⟩ := hx
    obtain ⟨rfl, rfl⟩ := Prod.mk.inj hx
    exact .addKey
  case transfer amount receiver => exact called_transfer hx
  case terminationWithdraw receiver => exact called_payout hx
  case terminationPrepareToWithdraw =>
    simp only [terminationPrepareToWithdraw, bind_eq_ok, assertStakingPoolIsIdle_eq_ok] at hx
    obtain ⟨_, -, _, ⟨information, hsome, hidle⟩, hx⟩ := hx
    split at hx
    case h_6 hstatus =>
      obtain ⟨amount, hvesting⟩ := getTerminationStatus_eq_some.mp hstatus
      exact called_prepare .unstaking hsome hidle hvesting hx
    case h_7 hstatus =>
      obtain ⟨amount, hvesting⟩ := getTerminationStatus_eq_some.mp hstatus
      exact called_prepare .withdrawing hsome hidle hvesting hx
    all_goals cases hx
  all_goals exact called_pool hx (fun _ => rfl) (fun _ => rfl)

end UncContracts.Lockup
