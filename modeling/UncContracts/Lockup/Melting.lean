import UncContracts.Lockup.Custody
import UncContracts.Lockup.Payouts

/-!
# The locked amount melts

Between two calls the locked amount only shrinks. It covers what is unvested at every time, so that
what is vested but still locked can be computed: this is the invariant that what was withdrawn and
what is left of the vesting stay within the lockup, read at one time.

## Main definitions

* `Scheduled`: the vesting is well and follows no schedule but one
* `LockupContract.Melts`: the locked amount shrinks, within its bounds

## Main results

* `scheduled_run`: every run keeps the schedule
* `locked_melts`: the locked amount melts after every run
-/

namespace UncContracts.Lockup

open Foundation LockupContract

/-- What holds in every run of a lockup with a schedule: at most one operation is in flight, the
vesting is well and follows no other schedule. -/
structure Scheduled (schedule : VestingSchedule) (w : World) : Prop where
  flight : SingleFlight w.contract w.pending
  vested : WellVested w.contract
  follows : ∀ schedule', w.contract.vestingInformation = .vestingSchedule schedule' →
    schedule' = schedule

section Amounts

variable {s : LockupContract} {env : Env} {schedule : VestingSchedule}

/-- What the vesting holds back is locked. -/
theorem vestingLeft_le_lockedAt (h : WellVested s) (t : ℕ) : s.vestingLeft t ≤ s.lockedAt t := by
  have hle := vestingLeft_le h t
  have hnot : s.vestingLeft t ≤ s.notWithdrawn := by
    unfold notWithdrawn
    omega
  unfold lockedAt
  split
  · split
    · exact le_max_right _ _
    · exact hnot
  · exact hnot

/-- The schedule of the lockup tells what the vesting holds back. Once the vesting is terminated, or
over, any schedule does. -/
theorem getUnvestedAmount_eq_vestingLeft (h : WellVested s)
    (hfollows : ∀ schedule', s.vestingInformation = .vestingSchedule schedule' →
      schedule' = schedule) :
    s.getUnvestedAmount env schedule = .ok (s.vestingLeft env.blockTimestamp) := by
  cases heq : s.vestingInformation with
  | vestingSchedule schedule' =>
    obtain rfl := hfollows schedule' heq
    have hlocked : s.getVestingLocked env = _ := getVestingLocked_eq h
    unfold getVestingLocked at hlocked
    rwa [heq] at hlocked
  | vestingHash hash => exact absurd heq (h.public_only hash)
  | terminating information =>
    simp only [getUnvestedAmount, vestingLeft, heq]
    rfl
  | none =>
    simp only [getUnvestedAmount, vestingLeft, heq]
    rfl

end Amounts

section Runs

variable {sha256 : List UInt8 → Hash} {env : Env} {s t : LockupContract} {w w' : World} {l : Label}
  {schedule : VestingSchedule}

theorem SameVesting.schedule_eq (h : SameVesting s t)
    (ht : t.vestingInformation = .vestingSchedule schedule) :
    s.vestingInformation = .vestingSchedule schedule := by
  rcases h with heq | ⟨_, _, _, -, ht'⟩
  · rw [← heq]
    exact ht
  · cases ht'.symm.trans ht

/-- No step sets a schedule. -/
theorem schedule_of_step (hstep : (system sha256).step w l = .ok w')
    (h : w'.contract.vestingInformation = .vestingSchedule schedule) :
    w.contract.vestingInformation = .vestingSchedule schedule := by
  cases moves_of_step hstep with
  | called hhost hcall htokens =>
    rcases (called_vesting hcall).2 with hsame | ⟨_, _, _, _, -, -, ht⟩
    · exact hsame.schedule_eq h
    · cases ht.symm.trans h
  | resumed htake hhost hresume htokens =>
    rcases (resumed_vesting hresume).2 with ⟨hsame, -⟩ | ⟨_, _, -, -, ⟨-, ht⟩ | ⟨-, ht⟩⟩
    · exact hsame.schedule_eq h
    all_goals cases ht.symm.trans h
  | _ => exact h

theorem scheduled_step (h : Scheduled schedule w) (hstep : (system sha256).step w l = .ok w') :
    Scheduled schedule w' := by
  refine ⟨singleFlight_step h.flight hstep, wellVested_step h.flight h.vested hstep, ?_⟩
  intro schedule' hschedule
  exact h.follows schedule' (schedule_of_step hstep hschedule)

/-- Every run keeps the schedule. -/
theorem scheduled_run (h : Scheduled schedule w) (ls : List Label) :
    Scheduled schedule ((system sha256).run w ls) := by
  apply Machine.run_invariant (I := Scheduled schedule) (G := fun _ _ => True)
  · intro w l w' hw _ hstep
    exact scheduled_step hw hstep
  · exact fun _ _ => trivial
  · exact h

theorem scheduled_new {vesting : Option VestingSchedule}
    (h : s.IsNew env (vesting.map .vestingSchedule))
    (hvalid : ∀ v, vesting = some v → v.assertValid = .ok ())
    (hschedule : ∀ v, vesting = some v → v = schedule) (held : AccountId → ℕ) :
    Scheduled schedule (World.initial env s held) := by
  refine ⟨singleFlight_new h, wellVested_new h ?_, ?_⟩
  · intro v hv
    obtain ⟨v', hsome, rfl⟩ := Option.map_eq_some_iff.mp hv
    exact ⟨v', rfl, hvalid v' hsome⟩
  · intro schedule' hs
    have hvesting := (new_cases h).2.1
    rcases vesting with _ | v
    · cases hvesting.symm.trans hs
    · cases hvesting.symm.trans hs
      exact hschedule _ rfl

end Runs

/-- The locked amount at two times with no call in between: it is computed and shrinks, it is at
most what was not withdrawn, and it covers what is unvested, so that what is vested but still locked
is computed as well. -/
def LockupContract.Melts (s : LockupContract) (schedule : VestingSchedule) (env₁ env₂ : Env) :
    Prop :=
  ∃ locked₁ locked₂ unvestedAmount, s.getLockedAmount env₁ = .ok locked₁ ∧
    s.getLockedAmount env₂ = .ok locked₂ ∧ locked₂ ≤ locked₁ ∧
    s.lockupInformation.terminationWithdrawnTokens ≤ s.lockupInformation.lockupAmount ∧
    locked₁ ≤ s.lockupInformation.lockupAmount - s.lockupInformation.terminationWithdrawnTokens ∧
    s.getUnvestedAmount env₁ schedule = .ok unvestedAmount ∧ unvestedAmount ≤ locked₁ ∧
    s.getLockedVestedAmount env₁ schedule = .ok (locked₁ - unvestedAmount)

theorem Scheduled.melts {schedule : VestingSchedule} {w : World} (h : Scheduled schedule w)
    {env₁ env₂ : Env} (htime : env₁.blockTimestamp ≤ env₂.blockTimestamp) :
    w.contract.Melts schedule env₁ env₂ := by
  have hlocked : w.contract.getLockedAmount env₁ = _ := getLockedAmount_eq h.vested
  have hunvested : w.contract.getUnvestedAmount env₁ schedule = _ :=
    getUnvestedAmount_eq_vestingLeft h.vested h.follows
  have hle := vestingLeft_le_lockedAt h.vested env₁.blockTimestamp
  refine ⟨_, _, _, hlocked, getLockedAmount_eq h.vested, lockedAt_antitone h.vested htime,
    h.vested.booked.withdrawn_le, lockedAt_le h.vested _, hunvested, hle, ?_⟩
  unfold getLockedVestedAmount
  simp only [bind_eq_ok, checkedSub_eq_ok]
  exact ⟨_, hlocked, _, hunvested, hle, rfl⟩

/-- **Melting.** In every run of a new lockup with no vesting or a valid public schedule, before,
during and after a termination, the locked amount only melts between two calls, is at most what was
not withdrawn, and covers what is unvested. -/
theorem locked_melts (sha256 : List UInt8 → Hash) (env : Env) (vesting : Option VestingSchedule)
    (s : LockupContract) (hnew : s.IsNew env (vesting.map .vestingSchedule))
    (hvalid : ∀ v, vesting = some v → v.assertValid = .ok ()) (held : AccountId → ℕ)
    (ls : List Label) (schedule : VestingSchedule)
    (hschedule : ∀ v, vesting = some v → v = schedule) (env₁ env₂ : Env)
    (htime : env₁.blockTimestamp ≤ env₂.blockTimestamp) :
    ((system sha256).run (World.initial env s held) ls).contract.Melts schedule env₁ env₂ :=
  (scheduled_run (scheduled_new hnew hvalid hschedule held) ls).melts htime

/-- The vesting of the sample lockup is terminated and paid out. -/
theorem locked_melts_samplePayouts :
    ((system id).run (World.initial
        (sampleEnv "creator" (MIN_BALANCE_FOR_STORAGE + 4000000) 0 sampleBalance_le) sampleVesting
          fun _ => 0)
        (.call (sampleEnv "foundation" (MIN_BALANCE_FOR_STORAGE + 4000000) 15 sampleBalance_le)
          (.terminateVesting none) :: samplePayouts)).contract.Melts ⟨10, 20, 110⟩
      (sampleEnv "anyone" MIN_BALANCE_FOR_STORAGE 20 sampleStorage_le)
      (sampleEnv "anyone" MIN_BALANCE_FOR_STORAGE 30 sampleStorage_le) :=
  locked_melts id _ (some ⟨10, 20, 110⟩) sampleVesting isNew_sampleVesting
    (by rintro v ⟨⟩; rfl) (fun _ => 0) _ ⟨10, 20, 110⟩ (by rintro v ⟨⟩; rfl) _ _
    (show 20 ≤ 30 by omega)

end UncContracts.Lockup
