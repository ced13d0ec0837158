import UncContracts.Lockup.System

/-!
# Publishing a private vesting

A private lockup stores the hash of its vesting schedule with a salt, and its foundation presents
both when it terminates the vesting. The published lockup stores the schedule itself. Up to the
presentation and to what the unvested tokens lock, the two do the same.

## Main definitions

* `LockupContract.publish`: the lockup with its schedule in the place of the hash
* `Method.publish`, `Label.publish`: the calls of the published lockup

## Main results

* `resume_publish`, `call_publish`: the callbacks and the calls other than a termination
* `terminateVesting_publish`: the termination
-/

namespace UncContracts.Lockup

open Foundation

/-- The vesting with its schedule in the place of the hash. -/
def VestingInformation.publish (schedule : VestingSchedule) :
    VestingInformation → VestingInformation
  | .vestingHash _ => .vestingSchedule schedule
  | information => information

/-- The lockup with its vesting schedule in the place of the hash. -/
def LockupContract.publish (schedule : VestingSchedule) (s : LockupContract) : LockupContract :=
  { s with vestingInformation := s.vestingInformation.publish schedule }

/-- What is presented to the published lockup in the place of something: nothing for what has the
hash. What is refused by the private lockup is to be refused there, too. -/
def publishPresented (sha256 : List UInt8 → Hash) (salted : VestingScheduleWithSalt) :
    Option VestingScheduleWithSalt → Option VestingScheduleWithSalt
  | none => some salted
  | some presented =>
    if presented.hash sha256 = salted.hash sha256 then none else some presented

/-- The call that the published lockup gets in the place of one. -/
def Method.publish (sha256 : List UInt8 → Hash) (salted : VestingScheduleWithSalt) :
    Method → Method
  | .terminateVesting presented => .terminateVesting (publishPresented sha256 salted presented)
  | method => method

/-- What may happen to the published lockup in the place of something. -/
def Label.publish (sha256 : List UInt8 → Hash) (salted : VestingScheduleWithSalt) : Label → Label
  | .call env method => .call env (method.publish sha256 salted)
  | l => l

/-- The world with the published lockup. -/
def World.publish (schedule : VestingSchedule) (w : World) : World :=
  { w with contract := w.contract.publish schedule }

/-- What a method leaves and returns, with the schedule in the place of the hash. -/
def published {α : Type} (schedule : VestingSchedule) (r : LockupContract × α) :
    LockupContract × α :=
  (r.1.publish schedule, r.2)

namespace LockupContract

variable {schedule : VestingSchedule} {s : LockupContract} {env : Env}

/-! ## Getters and checks -/

@[simp] theorem published_mk {α : Type} (a : α) :
    published schedule (s, a) = (s.publish schedule, a) := rfl

@[simp] theorem stakingInformation_publish :
    (s.publish schedule).stakingInformation = s.stakingInformation := rfl

@[simp] theorem lockupInformation_publish :
    (s.publish schedule).lockupInformation = s.lockupInformation := rfl

@[simp] theorem stakingPoolWhitelistAccountId_publish :
    (s.publish schedule).stakingPoolWhitelistAccountId = s.stakingPoolWhitelistAccountId := rfl

@[simp] theorem getTerminationStatus_publish :
    (s.publish schedule).getTerminationStatus = s.getTerminationStatus := by
  unfold getTerminationStatus publish
  cases s.vestingInformation <;> rfl

@[simp] theorem getTerminatedUnvestedBalance_publish :
    (s.publish schedule).getTerminatedUnvestedBalance = s.getTerminatedUnvestedBalance := by
  unfold getTerminatedUnvestedBalance publish
  cases s.vestingInformation <;> rfl

@[simp] theorem getKnownDepositedBalance_publish :
    (s.publish schedule).getKnownDepositedBalance = s.getKnownDepositedBalance := rfl

@[simp] theorem assertOwner_publish :
    (s.publish schedule).assertOwner env = s.assertOwner env := rfl

@[simp] theorem assertCalledByFoundation_publish :
    (s.publish schedule).assertCalledByFoundation env = s.assertCalledByFoundation env := rfl

@[simp] theorem assertNoTermination_publish :
    (s.publish schedule).assertNoTermination = s.assertNoTermination := by
  simp only [assertNoTermination, getTerminationStatus_publish]

@[simp] theorem assertTransfersEnabled_publish :
    (s.publish schedule).assertTransfersEnabled = s.assertTransfersEnabled := rfl

@[simp] theorem assertTransfersDisabled_publish :
    (s.publish schedule).assertTransfersDisabled = s.assertTransfersDisabled := rfl

@[simp] theorem assertNoStakingOrIdle_publish :
    (s.publish schedule).assertNoStakingOrIdle = s.assertNoStakingOrIdle := rfl

@[simp] theorem assertStakingPoolIsIdle_publish :
    (s.publish schedule).assertStakingPoolIsIdle = s.assertStakingPoolIsIdle := rfl

@[simp] theorem assertStakingPoolIsNotSelected_publish :
    (s.publish schedule).assertStakingPoolIsNotSelected = s.assertStakingPoolIsNotSelected := rfl

@[simp] theorem setStakingPoolStatus_publish {status : TransactionStatus} :
    (s.publish schedule).setStakingPoolStatus status =
      publish schedule <$> s.setStakingPoolStatus status := by
  simp only [setStakingPoolStatus, map_bind, stakingInformation_publish]
  rfl

@[simp] theorem setTerminationStatus_publish {status : TerminationStatus} :
    (s.publish schedule).setTerminationStatus status =
      publish schedule <$> s.setTerminationStatus status := by
  unfold setTerminationStatus publish
  cases s.vestingInformation <;> rfl

/-! ## Callbacks -/

section Callbacks

variable {result : PromiseResult}

theorem onStakingPoolOperation_publish
    {update : StakingInformation → Exec StakingInformation} :
    (s.publish schedule).onStakingPoolOperation env result update =
      published schedule <$> s.onStakingPoolOperation env result update := by
  simp only [onStakingPoolOperation, setStakingPoolStatus_publish, map_bind, bind_map_left,
    stakingInformation_publish]
  refine bind_congr fun _ => bind_congr fun t => ?_
  split
  · simp only [map_bind]
    rfl
  · rfl

theorem onGetBalanceForTermination_publish {next : TerminationStatus}
    {promise : AccountId → ℕ → Promise} :
    (s.publish schedule).onGetBalanceForTermination env result next promise =
      published schedule <$> s.onGetBalanceForTermination env result next promise := by
  simp only [onGetBalanceForTermination, map_bind, setStakingPoolStatus_publish, bind_map_left,
    setTerminationStatus_publish, stakingInformation_publish]
  refine bind_congr fun _ => bind_congr fun _ => ?_
  split
  · simp only [map_bind]
    rfl
  · simp only [map_bind]
    rfl

theorem onMovedForTermination_publish {next before : TerminationStatus}
    {update : StakingInformation → StakingInformation} :
    (s.publish schedule).onMovedForTermination env result next before update =
      published schedule <$> s.onMovedForTermination env result next before update := by
  simp only [onMovedForTermination, setStakingPoolStatus_publish, map_bind, bind_map_left,
    setTerminationStatus_publish, stakingInformation_publish]
  refine bind_congr fun _ => bind_congr fun _ => ?_
  split
  · simp only [map_bind]
    rfl
  · simp only [map_bind]
    rfl

theorem onWhitelistIsWhitelisted_publish {pool : AccountId} :
    (s.publish schedule).onWhitelistIsWhitelisted env result pool =
      published schedule <$> s.onWhitelistIsWhitelisted env result pool := by
  simp only [onWhitelistIsWhitelisted, assertStakingPoolIsNotSelected_publish,
    assertNoTermination_publish, map_bind]
  rfl

theorem onGetResultFromTransferPoll_publish :
    (s.publish schedule).onGetResultFromTransferPoll env result =
      published schedule <$> s.onGetResultFromTransferPoll env result := by
  simp only [onGetResultFromTransferPoll, assertTransfersDisabled_publish, map_bind]
  refine bind_congr fun pollResult => bind_congr fun _ => bind_congr fun _ => ?_
  cases pollResult <;> rfl

theorem onGetAccountTotalBalance_publish :
    (s.publish schedule).onGetAccountTotalBalance env result =
      publish schedule <$> s.onGetAccountTotalBalance env result := by
  simp only [onGetAccountTotalBalance, setStakingPoolStatus_publish, map_bind, bind_map_left,
    stakingInformation_publish]
  rfl

theorem onGetAccountUnstakedBalanceToWithdrawByOwner_publish :
    (s.publish schedule).onGetAccountUnstakedBalanceToWithdrawByOwner env result =
      published schedule <$> s.onGetAccountUnstakedBalanceToWithdrawByOwner env result := by
  simp only [onGetAccountUnstakedBalanceToWithdrawByOwner, map_bind, setStakingPoolStatus_publish,
    bind_map_left, stakingInformation_publish]
  refine bind_congr fun _ => bind_congr fun _ => ?_
  split
  · simp only [map_bind]
    rfl
  · simp only [map_bind]
    rfl

/-- A payout ends the vesting, or leaves a termination. -/
theorem onWithdrawUnvestedAmount_publish {amount : ℕ} {receiverId : AccountId} :
    (s.publish schedule).onWithdrawUnvestedAmount env result amount receiverId =
      published schedule <$> s.onWithdrawUnvestedAmount env result amount receiverId := by
  have hpaid : ∀ information : LockupInformation,
      ({ s.publish schedule with lockupInformation := information } :
        LockupContract).getTerminatedUnvestedBalance = s.getTerminatedUnvestedBalance := fun _ =>
    getTerminatedUnvestedBalance_publish (s := s)
  have hpaid' : ∀ information : LockupInformation,
      ({ s with lockupInformation := information } :
        LockupContract).getTerminatedUnvestedBalance = s.getTerminatedUnvestedBalance := fun _ =>
    rfl
  simp only [onWithdrawUnvestedAmount, lockupInformation_publish, hpaid, hpaid',
    setTerminationStatus_publish, map_bind, bind_map_left]
  refine bind_congr fun _ => ?_
  split
  · simp only [map_bind]
    refine bind_congr fun _ => ?_
    split <;> rfl
  · simp only [map_bind]
    rfl

/-- **The callbacks** do the same in the published lockup. -/
theorem resume_publish {callback : Callback} :
    (s.publish schedule).resume env callback result =
      published schedule <$> s.resume env callback result := by
  cases callback <;>
    simp only [resume, onStakingPoolDeposit, onStakingPoolDepositAndStake, onStakingPoolWithdraw,
      onStakingPoolStake, onStakingPoolUnstake, onStakingPoolUnstakeAll,
      onGetAccountStakedBalanceToUnstake, onStakingPoolUnstakeForTermination,
      onGetAccountUnstakedBalanceToWithdraw, onStakingPoolWithdrawForTermination,
      onStakingPoolOperation_publish, onGetBalanceForTermination_publish,
      onMovedForTermination_publish, onWhitelistIsWhitelisted_publish,
      onGetResultFromTransferPoll_publish, onGetAccountTotalBalance_publish,
      onGetAccountUnstakedBalanceToWithdrawByOwner_publish, onWithdrawUnvestedAmount_publish,
      map_bind, bind_map_left] <;>
    rfl

end Callbacks

/-! ## Calls -/

theorem callStakingPool_publish {amount : Option ℕ} {attachedDeposit : ℕ}
    {promise : AccountId → Promise} :
    (s.publish schedule).callStakingPool env amount attachedDeposit promise =
      published schedule <$> s.callStakingPool env amount attachedDeposit promise := by
  simp only [callStakingPool, assertOwner_publish, assertStakingPoolIsIdle_publish,
    assertNoTermination_publish, setStakingPoolStatus_publish, map_bind, bind_map_left,
    stakingInformation_publish]
  rfl

theorem selectStakingPool_publish {pool : AccountId} :
    (s.publish schedule).selectStakingPool env pool =
      published schedule <$> s.selectStakingPool env pool := by
  simp only [selectStakingPool, assertOwner_publish, assertStakingPoolIsNotSelected_publish,
    assertNoTermination_publish, map_bind]
  rfl

theorem unselectStakingPool_publish :
    (s.publish schedule).unselectStakingPool env = publish schedule <$> s.unselectStakingPool env := by
  simp only [unselectStakingPool, assertOwner_publish, assertStakingPoolIsIdle_publish,
    assertNoTermination_publish, getKnownDepositedBalance_publish, map_bind]
  rfl

theorem checkTransfersVote_publish :
    (s.publish schedule).checkTransfersVote env =
      published schedule <$> s.checkTransfersVote env := by
  simp only [checkTransfersVote, assertOwner_publish, assertTransfersDisabled_publish,
    assertNoTermination_publish, map_bind]
  rfl

theorem prepareStage_publish {status : TerminationStatus} {promise : AccountId → Promise} :
    (s.publish schedule).prepareStage status promise =
      published schedule <$> s.prepareStage status promise := by
  simp only [prepareStage, setTerminationStatus_publish, bind_map_left, setStakingPoolStatus_publish,
    map_bind, stakingInformation_publish]
  rfl

theorem terminationPrepareToWithdraw_publish :
    (s.publish schedule).terminationPrepareToWithdraw env =
      published schedule <$> s.terminationPrepareToWithdraw env := by
  simp only [terminationPrepareToWithdraw, assertCalledByFoundation_publish,
    assertStakingPoolIsIdle_publish, getTerminationStatus_publish, prepareStage_publish, map_bind]
  refine bind_congr fun _ => bind_congr fun _ => ?_
  split <;> rfl

theorem terminationWithdraw_publish {receiverId : AccountId} :
    (s.publish schedule).terminationWithdraw env receiverId =
      published schedule <$> s.terminationWithdraw env receiverId := by
  simp only [terminationWithdraw, assertCalledByFoundation_publish, getTerminationStatus_publish,
    getTerminatedUnvestedBalance_publish, setTerminationStatus_publish, map_bind, bind_map_left]
  rfl

section Locked

variable (hlocked : (s.publish schedule).getLockedAmount env = s.getLockedAmount env)

include hlocked

theorem transfer_publish {amount : ℕ} {receiverId : AccountId} :
    (s.publish schedule).transfer env amount receiverId =
      published schedule <$> s.transfer env amount receiverId := by
  simp only [transfer, getLiquidOwnersBalance, getOwnersBalance, hlocked, assertOwner_publish,
    assertTransfersEnabled_publish, assertNoStakingOrIdle_publish, assertNoTermination_publish,
    getKnownDepositedBalance_publish, map_bind]
  rfl

theorem addFullAccessKey_publish {key : PublicKey} :
    (s.publish schedule).addFullAccessKey env key =
      published schedule <$> s.addFullAccessKey env key := by
  simp only [addFullAccessKey, hlocked, assertOwner_publish, assertTransfersEnabled_publish,
    assertNoStakingOrIdle_publish, assertNoTermination_publish, map_bind]
  rfl

/-- **The calls** other than a termination do the same in the published lockup, where as much is
locked. -/
theorem call_publish {sha256 : List UInt8 → Hash} {method : Method}
    (hmethod : ∀ salted, method ≠ .terminateVesting salted) :
    (s.publish schedule).call env sha256 method =
      published schedule <$> s.call env sha256 method := by
  cases method with
  | terminateVesting salted => exact absurd rfl (hmethod salted)
  | _ =>
    simp only [call, depositToStakingPool, depositAndStake, refreshStakingPoolBalance,
      withdrawFromStakingPool, withdrawAllFromStakingPool, stake, unstake, unstakeAll,
      callStakingPool_publish, selectStakingPool_publish, unselectStakingPool_publish,
      checkTransfersVote_publish, transfer_publish hlocked, addFullAccessKey_publish hlocked,
      terminationPrepareToWithdraw_publish, terminationWithdraw_publish, resume_publish, map_bind,
      bind_map_left] <;>
    rfl

end Locked

/-! ## Terminations -/

section Termination

variable {sha256 : List UInt8 → Hash} {salted : VestingScheduleWithSalt}

@[simp] theorem getUnvestedAmount_publish {schedule' : VestingSchedule} :
    (s.publish schedule).getUnvestedAmount env schedule' = s.getUnvestedAmount env schedule' := by
  unfold getUnvestedAmount publish
  cases s.vestingInformation <;> rfl

/-- A termination whose presentation is refused is refused. -/
theorem terminateVesting_refused {presented : Option VestingScheduleWithSalt} {e : String}
    (h : s.assertVesting sha256 presented = .error e) :
    (s.terminateVesting env sha256 presented).toOption = none := by
  unfold terminateVesting
  cases s.assertCalledByFoundation env with
  | ok u => rw [ok_bind, h]; rfl
  | error e => rfl

/-- A termination reads the schedule only. -/
theorem terminateVesting_presented {presented presented' : Option VestingScheduleWithSalt}
    {schedule' : VestingSchedule} (h : s.assertVesting sha256 presented = .ok schedule')
    (h' : (s.publish schedule).assertVesting sha256 presented' = .ok schedule') :
    (s.publish schedule).terminateVesting env sha256 presented' =
      publish schedule <$> s.terminateVesting env sha256 presented := by
  simp only [terminateVesting, h, h', assertCalledByFoundation_publish, getUnvestedAmount_publish,
    stakingInformation_publish, map_bind]
  rfl

/-- The vesting has come to its end, or there is none. -/
def Ended (s : LockupContract) : Prop :=
  s.vestingInformation = .none ∨ ∃ information, s.vestingInformation = .terminating information

/-- The vesting is the private one, or it has come to its end. -/
def Private (sha256 : List UInt8 → Hash) (salted : VestingScheduleWithSalt) (s : LockupContract) :
    Prop :=
  s.vestingInformation = .vestingHash (salted.hash sha256) ∨ s.Ended

theorem publish_of_ended (h : s.Ended) : s.publish schedule = s := by
  have hvesting : s.vestingInformation.publish schedule = s.vestingInformation := by
    rcases h with h | ⟨_, h⟩ <;> rw [h] <;> rfl
  rw [publish, hvesting]

/-- **The termination** is accepted by the published lockup if it is by the private one, as long as
nothing else is found that has the hash. -/
theorem terminateVesting_publish (h : s.Private sha256 salted)
    {presented : Option VestingScheduleWithSalt}
    (hsame : ∀ v, presented = some v → v.hash sha256 = salted.hash sha256 →
      v.vestingSchedule = salted.vestingSchedule) :
    ((s.publish salted.vestingSchedule).terminateVesting env sha256
        (publishPresented sha256 salted presented)).toOption =
      ((s.terminateVesting env sha256 presented).toOption).map (publish salted.vestingSchedule) := by
  have hrefused : ∀ e e' : String, s.assertVesting sha256 presented = .error e →
      (s.publish salted.vestingSchedule).assertVesting sha256
        (publishPresented sha256 salted presented) = .error e' →
      ((s.publish salted.vestingSchedule).terminateVesting env sha256
          (publishPresented sha256 salted presented)).toOption =
        ((s.terminateVesting env sha256 presented).toOption).map
          (publish salted.vestingSchedule) := by
    intro e e' he he'
    rw [terminateVesting_refused he, terminateVesting_refused he', Option.map_none]
  rcases h with hhash | hnone | ⟨information, hterminating⟩
  · have hpublished : (s.publish salted.vestingSchedule).vestingInformation =
        .vestingSchedule salted.vestingSchedule := by
      simp only [publish, hhash, VestingInformation.publish]
    cases presented with
    | none =>
      refine hrefused "Expected vesting schedule and salt, but it was not provided"
        "Explicit vesting schedule exists" ?_ ?_
      · simp only [assertVesting, hhash]
      · simp only [assertVesting, hpublished]
        rfl
    | some v =>
      by_cases hv : v.hash sha256 = salted.hash sha256
      · have hread : s.assertVesting sha256 (some v) = .ok salted.vestingSchedule := by
          simp only [assertVesting, hhash, ensure, if_pos hv, hsame v rfl hv]
          rfl
        have hread' : (s.publish salted.vestingSchedule).assertVesting sha256
            (publishPresented sha256 salted (some v)) = .ok salted.vestingSchedule := by
          simp only [publishPresented, if_pos hv, assertVesting, hpublished]
          rfl
        rw [terminateVesting_presented hread hread']
        cases s.terminateVesting env sha256 (some v) <;> rfl
      · refine hrefused "Presented vesting schedule and salt don't match the hash"
          "Explicit vesting schedule exists" ?_ ?_
        · simp only [assertVesting, hhash, ensure, if_neg hv]
          rfl
        · simp only [publishPresented, if_neg hv, assertVesting, hpublished]
          rfl
  · refine hrefused "Vesting is None" "Vesting is None" ?_ ?_
    · simp only [assertVesting, hnone]
    · simp only [assertVesting, publish, hnone, VestingInformation.publish]
  · refine hrefused "Vesting was terminated" "Vesting was terminated" ?_ ?_
    · simp only [assertVesting, hterminating]
    · simp only [assertVesting, publish, hterminating, VestingInformation.publish]

/-- **Calls.** The published lockup accepts a call, and does the same, if the private one does. -/
theorem toOption_call_publish (h : s.Private sha256 salted) {method : Method}
    (hlocked : (s.publish salted.vestingSchedule).getLockedAmount env = s.getLockedAmount env)
    (hsame : ∀ v, method = .terminateVesting (some v) → v.hash sha256 = salted.hash sha256 →
      v.vestingSchedule = salted.vestingSchedule) :
    ((s.publish salted.vestingSchedule).call env sha256 (method.publish sha256 salted)).toOption =
      ((s.call env sha256 method).toOption).map (published salted.vestingSchedule) := by
  by_cases hmethod : ∃ presented, method = .terminateVesting presented
  · obtain ⟨presented, rfl⟩ := hmethod
    have hterminate : ((s.publish salted.vestingSchedule).terminateVesting env sha256
          (publishPresented sha256 salted presented)).toOption =
        ((s.terminateVesting env sha256 presented).toOption).map
          (publish salted.vestingSchedule) :=
      terminateVesting_publish h fun v hv => hsame v (by rw [hv])
    rw [Method.publish]
    simp only [call]
    cases ensure (env.attachedDeposit = 0) "Method doesn't accept deposit" with
    | error e => rfl
    | ok u =>
      rw [ok_bind, ok_bind]
      cases hprivate : s.terminateVesting env sha256 presented with
      | ok t =>
        rw [hprivate] at hterminate
        rw [toOption_eq_some.mp hterminate]
        rfl
      | error e =>
        rw [hprivate] at hterminate
        obtain ⟨e', hpublic⟩ := toOption_eq_none.mp hterminate
        rw [hpublic]
        rfl
  · have hother : method.publish sha256 salted = method := by
      cases method with
      | terminateVesting presented => exact absurd ⟨presented, rfl⟩ hmethod
      | _ => rfl
    rw [hother, call_publish hlocked fun presented heq => hmethod ⟨presented, heq⟩]
    cases s.call env sha256 method <;> rfl

end Termination

end LockupContract

end UncContracts.Lockup
