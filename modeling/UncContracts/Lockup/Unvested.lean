import UncContracts.Lockup.Locked
import UncContracts.Lockup.Recovery

/-!
# The unvested amount

A lockup is accepted with any public vesting schedule; the order of its timestamps is not checked.
What is unvested is computed and stays within the lockup at all times if and only if the timestamps
are well ordered where the contract divides. Then a termination awards the foundation no more than
the lockup, in every run.

## Main definitions

* `VestingSchedule.WellTimed`: the timestamps leave no more unvested than an amount
* `WithinLockup`: what is unvested, awarded and withdrawn stays within an amount

## Main results

* `unvested_le_iff_wellTimed`: what is unvested stays within the lockup
* `withinLockup_iff_wellTimed`: so does what a termination awards and what is withdrawn
-/

namespace UncContracts.Lockup

open Foundation LockupContract

/-- The vesting is over by the cliff, or it takes some time and starts at most so late after the
cliff that, rounded down, no more than the amount is left at the cliff. -/
def VestingSchedule.WellTimed (amount : ℕ) (schedule : VestingSchedule) : Prop :=
  schedule.endTimestamp ≤ schedule.cliffTimestamp ∨
    schedule.startTimestamp < schedule.endTimestamp ∧
      amount * (schedule.startTimestamp - schedule.cliffTimestamp) <
        schedule.endTimestamp - schedule.startTimestamp

instance (amount : ℕ) (schedule : VestingSchedule) : Decidable (schedule.WellTimed amount) :=
  inferInstanceAs (Decidable (_ ∨ _))

section Schedules

variable {env : Env} {s : LockupContract} {schedule : VestingSchedule}

/-- The check that no method makes would be enough. -/
theorem VestingSchedule.Valid.wellTimed (h : schedule.Valid) (amount : ℕ) :
    schedule.WellTimed amount := by
  have hstart := h.start_le
  have hlt := h.start_lt
  right
  rw [Nat.sub_eq_zero_of_le hstart, Nat.mul_zero]
  omega

/-- What is unvested at any time is at most the lockup, for a schedule that is well timed. -/
theorem unvestedAt_le_of_wellTimed (h : schedule.WellTimed s.lockupInformation.lockupAmount)
    (t : ℕ) : s.unvestedAt schedule t ≤ s.lockupInformation.lockupAmount := by
  unfold unvestedAt
  rcases h with hend | ⟨hstart, hlate⟩
  · apply unvested_le
    omega
  · rcases Nat.lt_or_ge schedule.cliffTimestamp schedule.endTimestamp with hcliff | hend
    · exact (unvested_le_iff hcliff hstart).mpr hlate t
    · apply unvested_le
      omega

/-- The contract computes what is unvested at every time, and never more than the lockup, if and
only if the schedule is well timed. -/
theorem unvested_le_iff_wellTimed (env : Env) (hstatus : s.getTerminationStatus = none)
    (hvesting : s.vestingInformation ≠ .none)
    (hmax : s.lockupInformation.lockupAmount ≤ u128Max) :
    (∀ env' : Env, ∃ amount, s.getUnvestedAmount env' schedule = .ok amount ∧
      amount ≤ s.lockupInformation.lockupAmount) ↔
    schedule.WellTimed s.lockupInformation.lockupAmount := by
  simp only [getUnvestedAmount_eq_ok hstatus hvesting hmax]
  constructor
  · intro h
    rcases Nat.lt_or_ge schedule.cliffTimestamp schedule.endTimestamp with hcliff | hend
    · -- At the cliff the contract divides, so that the vesting takes some time.
      obtain ⟨_, ⟨hdivides, -, -⟩, -⟩ := h { env with blockTimestamp := schedule.cliffTimestamp }
      have hstart := hdivides le_rfl hcliff
      refine .inr ⟨hstart, (unvested_le_iff hcliff hstart).mp ?_⟩
      intro t
      obtain ⟨_, ⟨-, rfl, -⟩, hle⟩ := h { env with blockTimestamp := t }
      exact hle
    · exact .inl hend
  · intro h env'
    have hle := unvestedAt_le_of_wellTimed h env'.blockTimestamp
    refine ⟨_, ⟨?_, rfl, hle.trans hmax⟩, hle⟩
    intro hcliff hend
    rcases h with hearly | ⟨hstart, -⟩
    · exact absurd (hearly.trans hcliff) (Nat.not_le.mpr hend)
    · exact hstart

end Schedules

/-- What is unvested is computed at every time and stays within an amount; so does what a
termination awards, with what was withdrawn of it. -/
structure WithinLockup (bound : ℕ) (schedule : VestingSchedule) (s : LockupContract) : Prop where
  unvested : ∀ env : Env, ∃ amount, s.getUnvestedAmount env schedule = .ok amount ∧ amount ≤ bound
  awarded : s.lockupInformation.terminationWithdrawnTokens + s.getTerminatedUnvestedBalance ≤ bound
  withdrawn : s.lockupInformation.terminationWithdrawnTokens ≤ bound

/-- What holds in every run of a lockup with a schedule: the vesting follows it, is terminated or
is over. -/
structure Vests (bound : ℕ) (schedule : VestingSchedule) (w : World) : Prop where
  flight : SingleFlight w.contract w.pending
  lockup_eq : w.contract.lockupInformation.lockupAmount = bound
  vesting : w.contract.vestingInformation = .vestingSchedule schedule ∨
    (∃ information, w.contract.vestingInformation = .terminating information) ∨
    w.contract.vestingInformation = .none
  booked : Booked bound w.contract

section Runs

variable {sha256 : List UInt8 → Hash} {env : Env} {s t : LockupContract} {w w' : World} {l : Label}
  {bound : ℕ} {schedule : VestingSchedule}

theorem SameVesting.follows (h : SameVesting s t)
    (hs : s.vestingInformation = .vestingSchedule schedule ∨
      (∃ information, s.vestingInformation = .terminating information) ∨
      s.vestingInformation = .none) :
    t.vestingInformation = .vestingSchedule schedule ∨
      (∃ information, t.vestingInformation = .terminating information) ∨
      t.vestingInformation = .none := by
  rcases h with heq | ⟨_, _, _, -, ht⟩
  · rwa [heq]
  · exact .inr (.inl ⟨_, ht⟩)

/-- Only the schedule of the lockup is terminated, for at most the bound. -/
theorem Vests.terminated_le (h : Vests bound schedule w) (htimed : schedule.WellTimed bound)
    (hmax : bound ≤ u128Max) {salted : Option VestingScheduleWithSalt}
    {schedule' : VestingSchedule} {amount : ℕ}
    (hassert : w.contract.assertVesting sha256 salted = .ok schedule')
    (hamount : w.contract.getUnvestedAmount env schedule' = .ok amount) : amount ≤ bound := by
  have hlockup := h.lockup_eq
  have hsome : w.contract.vestingInformation = .vestingSchedule schedule' := by
    rcases assertVesting_cases hassert with ⟨hash, heq⟩ | heq
    · -- A private schedule is not what the lockup was made with.
      rcases h.vesting with heq' | ⟨_, heq'⟩ | heq' <;> cases heq.symm.trans heq'
    · exact heq
  have hsame : schedule' = schedule := by
    rcases h.vesting with heq | ⟨_, heq⟩ | heq <;> cases hsome.symm.trans heq
    rfl
  subst hsame
  rw [getUnvestedAmount_eq_ok (assertVesting_status hassert) (by simp [hsome])
    (hlockup.trans_le hmax)] at hamount
  obtain ⟨-, rfl, -⟩ := hamount
  rw [← hlockup] at htimed ⊢
  exact unvestedAt_le_of_wellTimed htimed _

theorem vests_step (htimed : schedule.WellTimed bound) (hmax : bound ≤ u128Max)
    (h : Vests bound schedule w) (hstep : (system sha256).step w l = .ok w') :
    Vests bound schedule w' := by
  have hflight := singleFlight_step h.flight hstep
  cases moves_of_step hstep with
  | called hhost hcall htokens =>
    obtain ⟨hinformation, hvesting⟩ := called_vesting hcall
    refine ⟨hflight, hinformation ▸ h.lockup_eq, ?_, h.booked.called hcall ?_⟩
    · rcases hvesting with hsame | ⟨_, _, _, _, -, -, ht⟩
      · exact hsame.follows h.vesting
      · exact .inr (.inl ⟨_, ht⟩)
    · intro salted schedule' amount hassert hamount
      exact h.terminated_le htimed hmax hassert hamount
  | resumed htake hhost hresume htokens =>
    obtain ⟨hlockup, hvesting⟩ := resumed_vesting hresume
    refine ⟨hflight, hlockup.trans h.lockup_eq, ?_, h.booked.resumed ?_ hresume⟩
    · rcases hvesting with ⟨hsame, -⟩ | ⟨_, _, -, -, ⟨-, ht⟩ | ⟨-, ht⟩⟩
      · exact hsame.follows h.vesting
      · exact .inr (.inl ⟨_, ht⟩)
      · exact .inr (.inr ht)
    · exact h.flight.expected _ ((mem_filterMap_of_takeAt htake).mpr (.inl rfl))
  | _ => exact ⟨hflight, h.lockup_eq, h.vesting, h.booked⟩

theorem vests_new (h : s.IsNew env (some (.vestingSchedule schedule))) (held : AccountId → ℕ) :
    Vests env.accountBalance schedule (World.initial env s held) := by
  obtain ⟨-, hvesting, hamount, hwithdrawn⟩ := new_cases h
  have hstatus := new_getTerminationStatus h
  refine ⟨singleFlight_new h, hamount, .inl hvesting, ?_, ?_, ?_⟩
  · exact hwithdrawn.trans_le (Nat.zero_le _)
  · intro amount status hterminating
    exact absurd hterminating (getTerminationStatus_eq_none.mp hstatus _)
  · exact fun _ _ => hwithdrawn

/-- A vesting that follows a schedule stays within the lockup. -/
theorem Vests.withinLockup (htimed : schedule.WellTimed bound) (hmax : bound ≤ u128Max)
    (h : Vests bound schedule w) : WithinLockup bound schedule w.contract := by
  have hwithdrawn := h.booked.withdrawn_le
  have hlockup := h.lockup_eq
  rcases h.vesting with heq | ⟨⟨amount, status⟩, heq⟩ | heq
  · have hstatus : w.contract.getTerminationStatus = none := by
      rw [getTerminationStatus_eq_none, heq]
      simp
    refine ⟨?_, by simpa [getTerminatedUnvestedBalance, heq] using hwithdrawn, hwithdrawn⟩
    intro env
    rw [← hlockup] at htimed ⊢
    exact (unvested_le_iff_wellTimed env hstatus (by simp [heq])
      (hlockup.trans_le hmax)).mpr htimed env
  · have hbooked := h.booked.terminated_le _ _ heq
    refine ⟨?_, by simpa only [getTerminatedUnvestedBalance, heq] using hbooked, hwithdrawn⟩
    intro env
    refine ⟨amount, ?_, by omega⟩
    simp only [getUnvestedAmount, heq]
    rfl
  · refine ⟨?_, by simpa [getTerminatedUnvestedBalance, heq] using hwithdrawn, hwithdrawn⟩
    intro env
    refine ⟨0, ?_, Nat.zero_le _⟩
    simp only [getUnvestedAmount, heq]
    rfl

end Runs

/-- **What is unvested.** A new lockup with a public schedule computes what is unvested at every
time, and what is unvested, awarded and withdrawn stays within the lockup in every run, if and only
if the schedule is well timed. -/
theorem withinLockup_iff_wellTimed (sha256 : List UInt8 → Hash) (env : Env)
    (schedule : VestingSchedule) (s : LockupContract)
    (hnew : s.IsNew env (some (.vestingSchedule schedule))) (held : AccountId → ℕ) :
    (∀ ls, WithinLockup s.lockupInformation.lockupAmount schedule
      ((system sha256).run (World.initial env s held) ls).contract) ↔
    schedule.WellTimed env.accountBalance := by
  have hvests := vests_new hnew held
  have hlockup : s.lockupInformation.lockupAmount = env.accountBalance := hvests.lockup_eq
  have hmax := env.accountBalance_le
  constructor
  · intro h
    have hunvested := (h []).unvested
    rw [← hlockup]
    refine (unvested_le_iff_wellTimed env (new_getTerminationStatus hnew) ?_
      (hlockup.trans_le hmax)).mp hunvested
    simp [(new_cases hnew).2.1]
  · intro htimed ls
    have hrun : Vests env.accountBalance schedule
        ((system sha256).run (World.initial env s held) ls) :=
      Machine.run_invariant (I := Vests env.accountBalance schedule) (G := fun _ _ => True)
        (fun _ _ _ h _ hstep => vests_step htimed hmax h hstep) (fun _ _ => trivial) hvests
    rw [hlockup]
    exact hrun.withinLockup htimed hmax

/-- The sample lockup with another schedule. -/
def sampleSchedule (schedule : VestingSchedule) : LockupContract :=
  { sampleVesting with vestingInformation := .vestingSchedule schedule }

/-- A lockup is accepted with every schedule. -/
theorem isNew_sampleSchedule (schedule : VestingSchedule) :
    (sampleSchedule schedule).IsNew (sampleEnv "creator" (MIN_BALANCE_FOR_STORAGE + 4000000) 0)
      (some (.vestingSchedule schedule)) :=
  ⟨"owner", 0, none, .transfersEnabled 0, none, "whitelist", some "foundation", by rfl⟩

theorem withinLockup_iff_wellTimed_sampleSchedule :
    VestingSchedule.WellTimed (MIN_BALANCE_FOR_STORAGE + 4000000) ⟨10, 20, 110⟩ ∧
      ∀ ls, WithinLockup (MIN_BALANCE_FOR_STORAGE + 4000000) ⟨10, 20, 110⟩
        ((system id).run (World.initial
          (sampleEnv "creator" (MIN_BALANCE_FOR_STORAGE + 4000000) 0 sampleBalance_le)
          (sampleSchedule ⟨10, 20, 110⟩) fun _ => 0) ls).contract :=
  ⟨by decide, (withinLockup_iff_wellTimed id _ ⟨10, 20, 110⟩ _ (isNew_sampleSchedule _)
    fun _ => 0).mpr (by decide)⟩

/-- A vesting that starts when it ends cannot be computed between its cliff and its end. One that
starts late after its cliff is terminated for more than the lockup. -/
theorem not_withinLockup_sampleSchedule :
    (sampleSchedule ⟨50, 10, 50⟩).IsNew
        (sampleEnv "creator" (MIN_BALANCE_FOR_STORAGE + 4000000) 0)
        (some (.vestingSchedule ⟨50, 10, 50⟩)) ∧
      (sampleSchedule ⟨50, 10, 50⟩).getUnvestedAmount
        (sampleEnv "anyone" (MIN_BALANCE_FOR_STORAGE + 4000000) 20) ⟨50, 10, 50⟩ =
        .error "division by zero" ∧
      (sampleSchedule ⟨100, 10, 110⟩).IsNew
        (sampleEnv "creator" (MIN_BALANCE_FOR_STORAGE + 4000000) 0)
        (some (.vestingSchedule ⟨100, 10, 110⟩)) ∧
      (sampleSchedule ⟨100, 10, 110⟩).lockupInformation.lockupAmount <
        ((system id).run (World.initial
          (sampleEnv "creator" (MIN_BALANCE_FOR_STORAGE + 4000000) 0 sampleBalance_le)
          (sampleSchedule ⟨100, 10, 110⟩) fun _ => 0)
          [.call (sampleEnv "foundation" (MIN_BALANCE_FOR_STORAGE + 4000000) 15 sampleBalance_le)
            (.terminateVesting none)]).contract.getTerminatedUnvestedBalance :=
  ⟨isNew_sampleSchedule _, by decide, isNew_sampleSchedule _, by decide⟩

end UncContracts.Lockup
