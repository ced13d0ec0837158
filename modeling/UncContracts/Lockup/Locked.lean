import Mathlib.Order.MinMax
import UncContracts.Foundation.LinearRelease
import UncContracts.Lockup.SingleFlight

/-!
# The locked amount

The locked amount as a function of time. It melts: what is unreleased and what is unvested both
shrink as time goes by, and a payout of unvested tokens takes them off the locked amount. A
termination freezes what is unvested at its time.

## Main definitions

* `LockupContract.lockedAt`: the locked amount at a time
* `Booked`: the withdrawn and the terminated tokens stay within a bound
* `WellVested`: the vesting is none or a valid public schedule, or its termination

## Main results

* `getLockedAmount_eq`: the contract computes the locked amount
* `lockedAt_antitone`: the locked amount only melts
* `lockedAt_paid`: a payout takes its tokens off the locked amount
-/

namespace UncContracts.Lockup

open Foundation LockupContract

/-- The timestamps of a schedule are in order. -/
structure VestingSchedule.Valid (schedule : VestingSchedule) : Prop where
  start_le : schedule.startTimestamp ≤ schedule.cliffTimestamp
  cliff_le : schedule.cliffTimestamp ≤ schedule.endTimestamp
  start_lt : schedule.startTimestamp < schedule.endTimestamp

theorem assertValid_eq_ok {schedule : VestingSchedule} {u : Unit} :
    schedule.assertValid = .ok u ↔ schedule.Valid := by
  simp only [VestingSchedule.assertValid, bind_eq_ok, ensure_eq_ok]
  constructor
  · rintro ⟨_, hstart, _, hcliff, hlt⟩
    exact ⟨hstart, hcliff, hlt⟩
  · rintro ⟨hstart, hcliff, hlt⟩
    exact ⟨u, hstart, u, hcliff, hlt⟩

namespace LockupContract

variable (s : LockupContract)

/-- What is unvested at a time, by a schedule. -/
def unvestedAt (schedule : VestingSchedule) (t : ℕ) : ℕ :=
  unvested s.lockupInformation.lockupAmount schedule.cliffTimestamp schedule.endTimestamp
    (schedule.endTimestamp - schedule.startTimestamp) t

/-- What the vesting holds back at a time. -/
def vestingLeft (t : ℕ) : ℕ :=
  match s.vestingInformation with
  | .vestingSchedule schedule => s.unvestedAt schedule t
  | .terminating information => information.unvestedAmount
  | _ => 0

/-- What is unreleased at a time, once the release has started. -/
def unreleasedAt (lockupTimestamp t : ℕ) : ℕ :=
  match s.lockupInformation.releaseDuration with
  | some releaseDuration => unreleased s.lockupInformation.lockupAmount
      (min (lockupTimestamp + releaseDuration) u64Max) releaseDuration t
  | none => 0

/-- The tokens that were not withdrawn. -/
def notWithdrawn : ℕ :=
  s.lockupInformation.lockupAmount - s.lockupInformation.terminationWithdrawnTokens

/-- The locked amount at a time. -/
def lockedAt (t : ℕ) : ℕ :=
  match s.lockupInformation.transfersInformation with
  | .transfersEnabled transfersTimestamp =>
    if s.releaseStart transfersTimestamp ≤ t then
      max (s.unreleasedAt (s.releaseStart transfersTimestamp) t -
        s.lockupInformation.terminationWithdrawnTokens) (s.vestingLeft t)
    else s.notWithdrawn
  | .transfersDisabled _ => s.notWithdrawn

end LockupContract

/-- The tokens that were withdrawn, with those that a termination is still to pay, stay within a
bound. -/
structure Booked (bound : ℕ) (s : LockupContract) : Prop where
  withdrawn_le : s.lockupInformation.terminationWithdrawnTokens ≤ bound
  terminated_le : ∀ amount status, s.vestingInformation = .terminating ⟨amount, status⟩ →
    s.lockupInformation.terminationWithdrawnTokens + amount ≤ bound
  /-- Nothing is withdrawn before the vesting is terminated. -/
  withdrawn_eq : s.getTerminationStatus = none → s.vestingInformation ≠ .none →
    s.lockupInformation.terminationWithdrawnTokens = 0

/-- The vesting is none or a valid public schedule, or the termination of one. -/
structure WellVested (s : LockupContract) : Prop where
  lockup_le : s.lockupInformation.lockupAmount ≤ u128Max
  valid : ∀ schedule, s.vestingInformation = .vestingSchedule schedule → schedule.Valid
  public_only : ∀ hash, s.vestingInformation ≠ .vestingHash hash
  booked : Booked s.lockupInformation.lockupAmount s

section Amounts

variable {s t : LockupContract} {env : Env} {schedule : VestingSchedule}

theorem unvestedAt_le (h : schedule.Valid) (t : ℕ) :
    s.unvestedAt schedule t ≤ s.lockupInformation.lockupAmount := by
  have hstart := h.start_le
  exact unvested_le (by omega)

theorem unvestedAt_antitone (h : schedule.Valid) : Antitone (s.unvestedAt schedule) := by
  have hstart := h.start_le
  exact unvested_antitone (by omega)

/-- When the contract computes what is unvested: once it divides, the vesting takes some time. -/
theorem getUnvestedAmount_eq_ok {amount : ℕ} (hstatus : s.getTerminationStatus = none)
    (hvesting : s.vestingInformation ≠ .none)
    (hmax : s.lockupInformation.lockupAmount ≤ u128Max) :
    s.getUnvestedAmount env schedule = .ok amount ↔
      (schedule.cliffTimestamp ≤ env.blockTimestamp → env.blockTimestamp < schedule.endTimestamp →
        schedule.startTimestamp < schedule.endTimestamp) ∧
      s.unvestedAt schedule env.blockTimestamp = amount ∧ amount ≤ u128Max := by
  rw [getTerminationStatus_eq_none] at hstatus
  unfold getUnvestedAmount
  split
  · next heq => exact absurd heq (hstatus _)
  · next heq => exact absurd heq hvesting
  · unfold LockupContract.unvestedAt
    by_cases hcliff : env.blockTimestamp < schedule.cliffTimestamp
    · rw [if_pos hcliff, unvested_of_lt hcliff, pure_eq_ok]
      omega
    · rw [if_neg hcliff, unvested_of_le (Nat.le_of_not_lt hcliff)]
      by_cases hend : schedule.endTimestamp ≤ env.blockTimestamp
      · rw [if_pos hend, unreleased_of_le hend, pure_eq_ok]
        omega
      · rw [if_neg hend, unreleased_of_lt (Nat.lt_of_not_le hend)]
        simp only [bind_eq_ok, checkedSub_eq_ok, checkedDiv_eq_ok, asU128_eq_ok]
        constructor
        · rintro ⟨_, ⟨-, rfl⟩, _, ⟨hstart, rfl⟩, _, ⟨htotal, rfl⟩, hle, rfl⟩
          exact ⟨fun _ _ => by omega, rfl, hle⟩
        · rintro ⟨hstart, rfl, hle⟩
          have hlt := hstart (by omega) (by omega)
          exact ⟨_, ⟨by omega, rfl⟩, _, ⟨by omega, rfl⟩, _, ⟨by omega, rfl⟩, hle, rfl⟩

/-- The contract computes what is unvested. -/
theorem getUnvestedAmount_eq (h : schedule.Valid) (hstatus : s.getTerminationStatus = none)
    (hvesting : s.vestingInformation ≠ .none)
    (hmax : s.lockupInformation.lockupAmount ≤ u128Max) :
    s.getUnvestedAmount env schedule = .ok (s.unvestedAt schedule env.blockTimestamp) := by
  rw [getUnvestedAmount_eq_ok hstatus hvesting hmax]
  exact ⟨fun _ _ => h.start_lt, rfl, (unvestedAt_le h _).trans hmax⟩

theorem unreleasedAt_le {lockupTimestamp t : ℕ} (h : lockupTimestamp ≤ t) :
    s.unreleasedAt lockupTimestamp t ≤ s.lockupInformation.lockupAmount := by
  unfold LockupContract.unreleasedAt
  split
  · exact unreleased_le (by omega)
  · exact Nat.zero_le _

theorem unreleasedAt_antitone {lockupTimestamp : ℕ} :
    Antitone (s.unreleasedAt lockupTimestamp) := by
  unfold LockupContract.unreleasedAt
  split
  · exact unreleased_antitone
  · exact fun _ _ _ => le_rfl

/-- The contract computes what is unreleased. -/
theorem getUnreleasedAmount_eq {lockupTimestamp : ℕ} (h : lockupTimestamp ≤ env.blockTimestamp)
    (hmax : s.lockupInformation.lockupAmount ≤ u128Max) :
    s.getUnreleasedAmount env lockupTimestamp =
      .ok (s.unreleasedAt lockupTimestamp env.blockTimestamp) := by
  have hle := unreleasedAt_le (s := s) h
  unfold getUnreleasedAmount
  unfold LockupContract.unreleasedAt unreleased at hle ⊢
  cases hduration : s.lockupInformation.releaseDuration with
  | none => rfl
  | some releaseDuration =>
    simp only [hduration] at hle ⊢
    by_cases hend : min (lockupTimestamp + releaseDuration) u64Max ≤ env.blockTimestamp
    · rw [if_pos hend, if_pos hend]
      rfl
    · rw [if_neg hend] at hle ⊢
      rw [if_neg hend]
      simp only [bind_eq_ok, checkedSub_eq_ok, checkedDiv_eq_ok, asU128_eq_ok]
      exact ⟨_, ⟨by omega, rfl⟩, _, ⟨by omega, rfl⟩, by omega, rfl⟩

/-- What the vesting holds back never exceeds what was not withdrawn. -/
theorem vestingLeft_le (h : WellVested s) (t : ℕ) :
    s.lockupInformation.terminationWithdrawnTokens + s.vestingLeft t ≤
      s.lockupInformation.lockupAmount := by
  unfold vestingLeft
  split
  · next schedule heq =>
    have hnone : s.getTerminationStatus = none := by
      rw [getTerminationStatus_eq_none, heq]
      simp
    rw [h.booked.withdrawn_eq hnone (by simp [heq]), Nat.zero_add]
    exact unvestedAt_le (h.valid schedule heq) t
  · next information heq => exact h.booked.terminated_le _ _ heq
  · exact h.booked.withdrawn_le

/-- No more is locked than was not withdrawn. -/
theorem lockedAt_le (h : WellVested s) (t : ℕ) : s.lockedAt t ≤ s.notWithdrawn := by
  have hvesting := vestingLeft_le h t
  unfold lockedAt notWithdrawn
  split
  · split
    · next hstart =>
      have hunreleased := unreleasedAt_le (s := s) hstart
      exact Nat.max_le.mpr ⟨Nat.sub_le_sub_right hunreleased _, by omega⟩
    · exact le_rfl
  · exact le_rfl

theorem vestingLeft_antitone (h : WellVested s) : Antitone s.vestingLeft := by
  intro t t' htt'
  unfold vestingLeft
  split
  · next schedule heq => exact unvestedAt_antitone (h.valid schedule heq) htt'
  · exact le_rfl
  · exact le_rfl

/-- The locked amount only melts. -/
theorem lockedAt_antitone (h : WellVested s) : Antitone s.lockedAt := by
  intro t t' htt'
  have hmax := lockedAt_le h t'
  unfold lockedAt at hmax ⊢
  split
  · next transfersTimestamp heq =>
    by_cases hstart : s.releaseStart transfersTimestamp ≤ t
    · rw [if_pos hstart, if_pos (hstart.trans htt')]
      apply max_le_max
      · exact Nat.sub_le_sub_right (unreleasedAt_antitone htt') _
      · exact vestingLeft_antitone h htt'
    · rw [if_neg hstart]
      simpa only [heq] using hmax
  · exact le_rfl

/-- The contract computes what the vesting locks. -/
theorem getVestingLocked_eq (h : WellVested s) :
    s.getVestingLocked env = .ok (s.vestingLeft env.blockTimestamp) := by
  unfold getVestingLocked vestingLeft
  cases heq : s.vestingInformation with
  | vestingSchedule schedule =>
    refine getUnvestedAmount_eq (h.valid schedule heq) ?_ (by simp [heq]) h.lockup_le
    rw [getTerminationStatus_eq_none, heq]
    simp
  | _ => rfl

/-- The contract computes the locked amount. -/
theorem getLockedAmount_eq (h : WellVested s) :
    s.getLockedAmount env = .ok (s.lockedAt env.blockTimestamp) := by
  have hnot : s.getNotWithdrawn = .ok s.notWithdrawn := by
    unfold getNotWithdrawn
    rw [checkedSub_eq_ok]
    exact ⟨h.booked.withdrawn_le, rfl⟩
  unfold getLockedAmount lockedAt
  cases s.lockupInformation.transfersInformation with
  | transfersDisabled poll => exact hnot
  | transfersEnabled transfersTimestamp =>
    by_cases hstart : s.releaseStart transfersTimestamp ≤ env.blockTimestamp
    · simp only [if_pos hstart, getUnreleasedAmount_eq hstart h.lockup_le, getVestingLocked_eq h]
      rfl
    · simp only [if_neg hstart, hnot]

/-- A payout takes its tokens off the locked amount. -/
theorem lockedAt_paid (h : WellVested s) {amount u : ℕ} {status : TerminationStatus}
    (hs : s.vestingInformation = .terminating ⟨u, status⟩) (hamount : amount ≤ u)
    (hinformation : t.lockupInformation = { s.lockupInformation with
      terminationWithdrawnTokens := s.lockupInformation.terminationWithdrawnTokens + amount })
    (ht : ∀ time, t.vestingLeft time = u - amount) (time : ℕ) :
    t.lockedAt time + amount ≤ s.lockedAt time := by
  have hbooked := h.booked.terminated_le _ _ hs
  have hleft : s.vestingLeft time = u := by
    unfold vestingLeft
    rw [hs]
  have hunreleased : ∀ start, t.unreleasedAt start time = s.unreleasedAt start time := by
    intro start
    unfold unreleasedAt
    rw [hinformation]
  have hstart : ∀ timestamp, t.releaseStart timestamp = s.releaseStart timestamp := by
    intro timestamp
    unfold releaseStart
    rw [hinformation]
  unfold lockedAt notWithdrawn
  simp only [hinformation, hleft, ht, hunreleased, hstart]
  split
  · split
    · omega
    · omega
  · omega

/-- A termination freezes what is unvested at its time. -/
theorem lockedAt_withTermination {status : TerminationStatus} {time : ℕ} :
    (s.withTermination (s.vestingLeft time) status).lockedAt time = s.lockedAt time := rfl

/-- The locked amount reads neither the pool nor the status of the termination. -/
theorem lockedAt_congr (hinformation : t.lockupInformation = s.lockupInformation)
    (hvesting : ∀ time, t.vestingLeft time = s.vestingLeft time) (time : ℕ) :
    t.lockedAt time = s.lockedAt time := by
  unfold lockedAt notWithdrawn releaseStart unreleasedAt
  simp only [hinformation, hvesting]

/-- Everything is locked while transfers are disabled. -/
theorem lockedAt_of_disabled (h : s.areTransfersEnabled = false) (time : ℕ) :
    s.lockedAt time = s.notWithdrawn := by
  cases hinformation : s.lockupInformation.transfersInformation with
  | transfersEnabled timestamp => simp [areTransfersEnabled, hinformation] at h
  | transfersDisabled pollAccountId => simp [lockedAt, hinformation]

end Amounts

/-! ## What a step does to the vesting -/

section Vesting

variable {sha256 : List UInt8 → Hash} {env : Env} {s t : LockupContract} {method : Method}
  {p : Option Promise} {callback : Callback} {result : PromiseResult} {bound : ℕ}

/-- The vesting of the contract is the same, or only the status of its termination differs. -/
def SameVesting (s t : LockupContract) : Prop :=
  t.vestingInformation = s.vestingInformation ∨ ∃ amount status status',
    s.vestingInformation = .terminating ⟨amount, status⟩ ∧
      t.vestingInformation = .terminating ⟨amount, status'⟩

theorem SameVesting.vestingLeft (h : SameVesting s t)
    (hinformation : t.lockupInformation.lockupAmount = s.lockupInformation.lockupAmount)
    (time : ℕ) : t.vestingLeft time = s.vestingLeft time := by
  unfold LockupContract.vestingLeft unvestedAt
  rcases h with heq | ⟨amount, status, status', hs, ht⟩
  · rw [heq, hinformation]
  · rw [hs, ht]

theorem Booked.of_sameVesting (h : Booked bound s) (hsame : SameVesting s t)
    (hinformation : t.lockupInformation.terminationWithdrawnTokens =
      s.lockupInformation.terminationWithdrawnTokens) : Booked bound t := by
  refine ⟨?_, ?_, ?_⟩
  · rw [hinformation]
    exact h.withdrawn_le
  · intro amount status ht
    rw [hinformation]
    rcases hsame with heq | ⟨amount', status', status'', hs, ht'⟩
    · exact h.terminated_le amount status (heq ▸ ht)
    · cases ht'.symm.trans ht
      exact h.terminated_le amount status' hs
  · intro hnone hvesting
    rw [hinformation]
    rcases hsame with heq | ⟨amount', status', status'', hs, ht'⟩
    · refine h.withdrawn_eq ?_ (heq ▸ hvesting)
      unfold getTerminationStatus at hnone ⊢
      rwa [heq] at hnone
    · exact absurd ht' (getTerminationStatus_eq_none.mp hnone _)

/-- A call keeps the lockup. It keeps the vesting, or terminates it. -/
theorem called_vesting (h : Called sha256 env s method t p) :
    t.lockupInformation = s.lockupInformation ∧ (SameVesting s t ∨
      ∃ salted schedule amount status, s.assertVesting sha256 salted = .ok schedule ∧
        s.getUnvestedAmount env schedule = .ok amount ∧
        t.vestingInformation = .terminating ⟨amount, status⟩) := by
  cases h with
  | terminate hvesting hamount hpos hstatus => exact ⟨rfl, .inr ⟨_, _, _, _, hvesting, hamount, rfl⟩⟩
  | prepare stage hsome hidle hvesting => exact ⟨rfl, .inl (.inr ⟨_, _, _, hvesting, rfl⟩)⟩
  | payout hvesting hamount hpos => exact ⟨rfl, .inl (.inr ⟨_, _, _, hvesting, rfl⟩)⟩
  | _ => exact ⟨rfl, .inl (.inl rfl)⟩

/-- A callback keeps the lockup, up to the vote, and the vesting, unless tokens were paid out. -/
theorem resumed_vesting (h : Resumed s callback result t p) :
    t.lockupInformation.lockupAmount = s.lockupInformation.lockupAmount ∧
      (SameVesting s t ∧ t.lockupInformation.terminationWithdrawnTokens =
          s.lockupInformation.terminationWithdrawnTokens ∨
        ∃ amount receiver, callback = .onWithdrawUnvestedAmount amount receiver ∧
          t.lockupInformation = { s.lockupInformation with terminationWithdrawnTokens :=
            s.lockupInformation.terminationWithdrawnTokens + amount } ∧
          (amount < s.getTerminatedUnvestedBalance ∧ t.vestingInformation =
              .terminating ⟨s.getTerminatedUnvestedBalance - amount, .readyToWithdraw⟩ ∨
            s.getTerminatedUnvestedBalance ≤ amount ∧ t.vestingInformation = .none)) := by
  cases h with
  | nothingToMove stage hsome hvesting => exact ⟨rfl, .inl ⟨.inr ⟨_, _, _, hvesting, rfl⟩, rfl⟩⟩
  | moved stage hsome hvesting => exact ⟨rfl, .inl ⟨.inr ⟨_, _, _, hvesting, rfl⟩, rfl⟩⟩
  | notMoved stage hsome hvesting => exact ⟨rfl, .inl ⟨.inr ⟨_, _, _, hvesting, rfl⟩, rfl⟩⟩
  | notPaid hvesting => exact ⟨rfl, .inl ⟨.inr ⟨_, _, _, hvesting, rfl⟩, rfl⟩⟩
  | paid hmax hvesting => exact ⟨rfl, .inr ⟨_, _, rfl, rfl, hvesting⟩⟩
  | _ => exact ⟨rfl, .inl ⟨.inl rfl, rfl⟩⟩

/-- A vesting that is terminated was there and was not terminated. -/
theorem assertVesting_cases {salted : Option VestingScheduleWithSalt} {schedule : VestingSchedule}
    (h : s.assertVesting sha256 salted = .ok schedule) :
    (∃ hash, s.vestingInformation = .vestingHash hash) ∨
      s.vestingInformation = .vestingSchedule schedule := by
  unfold assertVesting at h
  split at h
  · next hash heq => exact .inl ⟨hash, heq⟩
  · next schedule' heq =>
    simp only [bind_eq_ok, pure_eq_ok] at h
    obtain ⟨_, -, rfl⟩ := h
    exact .inr heq
  · cases h
  · cases h

/-- What is unvested is a `u128`. -/
theorem getUnvestedAmount_le {schedule : VestingSchedule} {amount : ℕ}
    (hmax : s.lockupInformation.lockupAmount ≤ u128Max) (hstatus : s.getTerminationStatus = none)
    (h : s.getUnvestedAmount env schedule = .ok amount) : amount ≤ u128Max := by
  by_cases hvesting : s.vestingInformation = .none
  · unfold getUnvestedAmount at h
    rw [hvesting] at h
    cases pure_eq_ok.mp h
    exact Nat.zero_le _
  · exact ((getUnvestedAmount_eq_ok hstatus hvesting hmax).mp h).2.2

theorem assertVesting_status {salted : Option VestingScheduleWithSalt} {schedule : VestingSchedule}
    (h : s.assertVesting sha256 salted = .ok schedule) : s.getTerminationStatus = none := by
  rw [getTerminationStatus_eq_none]
  rcases assertVesting_cases h with ⟨hash, heq⟩ | heq <;> simp [heq]

/-- A termination of at most the bound keeps it. -/
theorem Booked.called (h : Booked bound s) (hcall : Called sha256 env s method t p)
    (hbound : ∀ salted schedule amount, s.assertVesting sha256 salted = .ok schedule →
      s.getUnvestedAmount env schedule = .ok amount → amount ≤ bound) : Booked bound t := by
  obtain ⟨hinformation, hsame | ⟨salted, schedule, amount, status, hvesting, hamount, ht⟩⟩ :=
    called_vesting hcall
  · exact h.of_sameVesting hsame (by rw [hinformation])
  · have hzero : s.lockupInformation.terminationWithdrawnTokens = 0 := by
      refine h.withdrawn_eq (assertVesting_status hvesting) ?_
      rcases assertVesting_cases hvesting with ⟨hash, heq⟩ | heq <;> simp [heq]
    refine ⟨?_, ?_, ?_⟩
    · rw [hinformation]
      exact h.withdrawn_le
    · intro amount' status' ht'
      cases ht.symm.trans ht'
      rw [hinformation, hzero, Nat.zero_add]
      exact hbound salted schedule amount hvesting hamount
    · intro hnone
      exact absurd ht (getTerminationStatus_eq_none.mp hnone _)

/-- What is paid out leaves what is terminated. -/
theorem Booked.resumed (h : Booked bound s) (hexpected : Expected s callback)
    (hresume : Resumed s callback result t p) : Booked bound t := by
  obtain ⟨-, ⟨hsame, hwithdrawn⟩ | ⟨amount, receiver, rfl, hinformation, hvesting⟩⟩ :=
    resumed_vesting hresume
  · exact h.of_sameVesting hsame hwithdrawn
  · obtain ⟨u, hs, hle⟩ := hexpected.paying amount receiver rfl
    have hbooked := h.terminated_le u _ hs
    have hu : s.getTerminatedUnvestedBalance = u := by
      simp only [getTerminatedUnvestedBalance, hs]
    rw [hu] at hvesting
    refine ⟨?_, ?_, ?_⟩
    · rw [hinformation]
      simp only
      omega
    · intro amount' status' ht'
      rcases hvesting with ⟨hlt, ht⟩ | ⟨-, ht⟩
      · cases ht.symm.trans ht'
        rw [hinformation]
        simp only
        omega
      · cases ht.symm.trans ht'
    · intro hnone hne
      rcases hvesting with ⟨-, ht⟩ | ⟨-, ht⟩
      · exact absurd ht (getTerminationStatus_eq_none.mp hnone _)
      · exact absurd ht hne

end Vesting

end UncContracts.Lockup
