import UncContracts.Lockup.Asking
import UncContracts.Lockup.Progress

/-!
# Recovery of unvested tokens

A termination with a deficit needs the tokens at the staking pool. It asks the pool for the staked
balance, but the query goes to the lockup itself and fails, and the callback panics. The pool stays
busy and the termination stays in its first stage, whatever happens next.

## Main definitions

* `Stuck`: the first stage of a termination is in progress, and no callback will end it

## Main results

* `never_recovered`: once the foundation prepares the withdrawal, it never withdraws
* `not_recovered`: a run that the foundation completes in vain
-/

namespace UncContracts.Lockup

open Foundation LockupContract

/-- The first stage of a termination is in progress, and only queries are awaited at the pool. -/
structure Stuck (w : World) : Prop where
  flight : SingleFlight w.contract w.pending
  unanswered : ∀ r ∈ w.receipts, r.Unanswered w.accountId
  busy : ∃ information, w.contract.stakingInformation = some information ∧
    information.status = .busy
  unstaking : w.contract.getTerminationStatus = some .unstakingInProgress
  queries : ∀ c ∈ w.pending, c.isPool = true → c.isQuery = true

section Stuck

variable {sha256 : List UInt8 → Hash} {env : Env} {s t : LockupContract} {method : Method}
  {p : Option Promise} {w w' : World} {l : Label}

theorem Stuck.asking (h : Stuck w) : ∃ pool deposit, Asking pool deposit w := by
  obtain ⟨⟨pool, status, deposit⟩, hsome, rfl⟩ := h.busy
  exact ⟨pool, deposit, h.flight, h.unanswered, hsome, h.queries⟩

/-- A call keeps the first stage in progress while the pool is busy. -/
theorem stuck_called {pool : AccountId} {deposit : ℕ}
    (hbusy : s.stakingInformation = some ⟨pool, .busy, deposit⟩)
    (hstatus : s.getTerminationStatus = some .unstakingInProgress)
    (hcall : Called sha256 env s method t p) :
    t.getTerminationStatus = some .unstakingInProgress := by
  cases hcall with
  | terminate hvesting hamount hpos hstatus' =>
    cases (assertVesting_status hvesting).symm.trans hstatus
  | prepare stage hsome hidle hvesting =>
    cases hbusy.symm.trans hsome
    cases hidle
  | payout hvesting hamount hpos =>
    cases (getTerminationStatus_eq_some.mpr ⟨_, hvesting⟩).symm.trans hstatus
  | _ => exact hstatus

/-- While the first stage is in progress, every callback panics: a payout is not awaited. -/
theorem Stuck.not_resumed {i : ℕ} {callback : Callback} {result : PromiseResult}
    {rest : List Receipt} (h : Stuck w)
    (htake : takeAt w.receipts i = some (.callback callback result, rest)) :
    ¬ Resumed w.contract callback result t p := by
  intro hresume
  obtain ⟨pool, deposit, hasking⟩ := h.asking
  have hpending : callback ∈ w.pending :=
    (pending_of_takeAt htake).mem_iff.mpr (List.mem_append_left _ (by simp [Receipt.pending]))
  have hpayout : callback.isPayout = false :=
    (h.flight.expected callback hpending).isPayout_eq_false (by simp [h.unstaking])
  cases hpayout.symm.trans (hasking.resumed htake hresume).1

/-- Nothing ends the first stage. -/
theorem stuck_step (h : Stuck w) (hstep : (system sha256).step w l = .ok w') : Stuck w' := by
  obtain ⟨pool, deposit, hasking⟩ := h.asking
  have hasking' := asking_step hasking hstep
  refine ⟨hasking'.flight, hasking'.unanswered, ⟨_, hasking'.busy, rfl⟩, ?_, hasking'.queries⟩
  cases moves_of_step hstep with
  | called hhost hcall htokens => exact stuck_called hasking.busy h.unstaking hcall
  | resumed htake hhost hresume htokens => exact absurd hresume (h.not_resumed htake)
  | _ => exact h.unstaking

/-- Nothing ends the first stage, ever. -/
theorem stuck_run (h : Stuck w) (ls : List Label) : Stuck ((system sha256).run w ls) :=
  Machine.run_invariant (I := Stuck) (G := fun _ _ => True)
    (fun _ _ _ hw _ hstep => stuck_step hw hstep) (fun _ _ => trivial) h

/-- While the first stage is in progress, nothing is withdrawn. -/
theorem Stuck.terminationWithdraw_refused (h : Stuck w) (env : Env) (receiver : AccountId) :
    ∃ e, (system sha256).step w (.call env (.terminationWithdraw receiver)) = .error e := by
  cases hstep : (system sha256).step w (.call env (.terminationWithdraw receiver)) with
  | error e => exact ⟨e, rfl⟩
  | ok w' =>
    cases moves_of_step hstep with
    | called hhost hcall htokens =>
      cases hcall with
      | pool hsome hidle hvesting hp hbalance => cases hp
      | payout hvesting hamount hpos =>
        cases (getTerminationStatus_eq_some.mpr ⟨_, hvesting⟩).symm.trans h.unstaking

/-- The foundation starts the first stage of a termination with a deficit, if the pool is idle. -/
theorem called_firstStage (sha256 : List UInt8 → Hash) {amount : ℕ} {information : StakingInformation}
    (hvesting : s.vestingInformation = .terminating ⟨amount, .vestingTerminatedWithDeficit⟩)
    (hsome : s.stakingInformation = some information) (hidle : information.status = .idle)
    (hfoundation : s.foundationAccountId = some env.predecessorAccountId)
    (hdeposit : env.attachedDeposit = 0) :
    s.call env sha256 .terminationPrepareToWithdraw = .ok
      ((s.withTermination amount .unstakingInProgress).withPool information .busy,
        some (.functionCall env.currentAccountId
          (.getAccountStakedBalance information.stakingPoolAccountId) 0
          .onGetAccountStakedBalanceToUnstake)) := by
  have hstatus := getTerminationStatus_eq_some.mpr ⟨amount, hvesting⟩
  have hprepare : s.terminationPrepareToWithdraw env = .ok
      ((s.withTermination amount .unstakingInProgress).withPool information .busy,
        .functionCall env.currentAccountId
          (.getAccountStakedBalance information.stakingPoolAccountId) 0
          .onGetAccountStakedBalanceToUnstake) := by
    simp only [terminationPrepareToWithdraw, hstatus, prepareStage, bind_eq_ok, expect_eq_ok,
      assertCalledByFoundation_eq_ok, assertStakingPoolIsIdle_eq_ok, setTerminationStatus_eq_ok,
      setStakingPoolStatus_eq_ok, pure_eq_ok]
    exact ⟨(), hfoundation, (), ⟨information, hsome, hidle⟩, _, ⟨_, hvesting, rfl⟩, _,
      ⟨information, hsome, rfl⟩, _, rfl, rfl⟩
  simp only [call, hprepare, bind_eq_ok, ensure_eq_ok, pure_eq_ok]
  exact ⟨(), hdeposit, _, rfl, rfl⟩

/-- A world in which the foundation may start the first stage. -/
structure Startable (w : World) (env : Env) : Prop where
  deficit : w.contract.getTerminationStatus = some .vestingTerminatedWithDeficit
  idle : ∃ information, w.contract.stakingInformation = some information ∧
    information.status = .idle
  hosts : w.Hosts env
  foundation : w.contract.foundationAccountId = some env.predecessorAccountId
  other : env.predecessorAccountId ≠ w.accountId
  deposit : env.attachedDeposit = 0

/-- The call is accepted, and the world is stuck. -/
theorem Startable.stuck (h : Startable w env) (hflight : SingleFlight w.contract w.pending)
    (hunanswered : ∀ r ∈ w.receipts, r.Unanswered w.accountId) :
    ∃ w', (system sha256).step w (.call env .terminationPrepareToWithdraw) = .ok w' ∧
      Stuck w' := by
  obtain ⟨information, hsome, hidle⟩ := h.idle
  obtain ⟨amount, hvesting⟩ := getTerminationStatus_eq_some.mp h.deficit
  have hcall := called_firstStage sha256 hvesting hsome hidle h.foundation h.deposit
  have hstep := step_of_call h.hosts h.other hcall (Nat.zero_le _)
  refine ⟨_, hstep, singleFlight_step hflight hstep, unanswered_step hunanswered hstep,
    ⟨_, rfl, rfl⟩, rfl, isQuery_of_issued hflight ?_ ?_⟩
  · intro information' hsome'
    cases hsome.symm.trans hsome'
    exact hidle
  · rintro c ⟨⟩
    rfl

end Stuck

/-- A lockup of four million tokens above the storage, which vest between the times 10 and 110. -/
def sampleVesting : LockupContract :=
  { sampleLockup with
    vestingInformation := .vestingSchedule ⟨10, 20, 110⟩
    foundationAccountId := some "foundation" }

theorem isNew_sampleVesting :
    sampleVesting.IsNew (sampleEnv "creator" (MIN_BALANCE_FOR_STORAGE + 4000000) 0)
      (some (.vestingSchedule ⟨10, 20, 110⟩)) :=
  ⟨"owner", 0, none, .transfersEnabled 0, none, "whitelist", some "foundation", by rfl⟩

/-- The foundation terminates the vesting. Most of the tokens are at the pool. -/
def sampleTerminate : List Label :=
  [.call (sampleEnv "foundation" (MIN_BALANCE_FOR_STORAGE + 1000000) 15 sampleRest_le)
    (.terminateVesting none)]

/-- The world in which the vesting is terminated with a deficit. -/
def sampleDeficit : World :=
  (system id).run (World.initial
    (sampleEnv "creator" (MIN_BALANCE_FOR_STORAGE + 4000000) 0 sampleBalance_le) sampleVesting fun _ => 0)
    (sampleSelect ++ sampleDeposit ++ sampleTerminate)

/-- **No recovery.** When the foundation prepares the withdrawal of a termination with a deficit,
the call is accepted, and from then on the termination stays in its first stage and the foundation
withdraws nothing. -/
theorem never_recovered (sha256 : List UInt8 → Hash) (env₀ : Env)
    (vesting : Option VestingScheduleOrHash) (s : LockupContract) (hnew : s.IsNew env₀ vesting)
    (held : AccountId → ℕ) (ls : List Label) (env : Env)
    (hstart : Startable ((system sha256).run (World.initial env₀ s held) ls) env) :
    ∃ w', (system sha256).step ((system sha256).run (World.initial env₀ s held) ls)
        (.call env .terminationPrepareToWithdraw) = .ok w' ∧
      ∀ ls', ((system sha256).run w' ls').contract.getTerminationStatus =
          some .unstakingInProgress ∧
        ∀ env' receiver, ∃ e, (system sha256).step ((system sha256).run w' ls')
          (.call env' (.terminationWithdraw receiver)) = .error e := by
  obtain ⟨w', hstep, hstuck⟩ := hstart.stuck (singleFlight_run hnew held ls)
    (unanswered_run env₀ s held ls)
  refine ⟨w', hstep, ?_⟩
  intro ls'
  have hrun : Stuck ((system sha256).run w' ls') := stuck_run hstuck ls'
  exact ⟨hrun.unstaking, hrun.terminationWithdraw_refused⟩

theorem never_recovered_sampleDeficit :
    ∃ w', (system id).step sampleDeficit
        (.call (sampleEnv "foundation" (MIN_BALANCE_FOR_STORAGE + 1000000) 16)
          .terminationPrepareToWithdraw) = .ok w' ∧
      ∀ ls', ((system id).run w' ls').contract.getTerminationStatus =
          some .unstakingInProgress ∧
        ∀ env' receiver, ∃ e, (system id).step ((system id).run w' ls')
          (.call env' (.terminationWithdraw receiver)) = .error e :=
  never_recovered id _ _ sampleVesting isNew_sampleVesting (fun _ => 0)
    (sampleSelect ++ sampleDeposit ++ sampleTerminate) _
    ⟨by decide, ⟨⟨"pool", .idle, 3000000⟩, by decide, by decide⟩, by decide, by decide, by decide,
      by decide⟩

/-- The foundation prepares the withdrawal twice, an epoch apart, and all receipts are executed. -/
def samplePrepareTwice : List Label :=
  [.call (sampleEnv "foundation" (MIN_BALANCE_FOR_STORAGE + 1000000) 16 sampleRest_le)
      .terminationPrepareToWithdraw,
    .deliver 0 ⟨.failed, 0, 0⟩,
    .resume 0 (sampleEnv "lockup" (MIN_BALANCE_FOR_STORAGE + 1000000) 17 sampleRest_le),
    .call (sampleEnv "foundation" (MIN_BALANCE_FOR_STORAGE + 1000000) 200000000000000 sampleRest_le)
      .terminationPrepareToWithdraw]

/-- The termination has a deficit and the pool is idle. Once everything is executed the termination
is not ready to withdraw, the pool holds what it held, and a withdrawal is refused. -/
theorem not_recovered :
    sampleDeficit.contract.getTerminationStatus = some .vestingTerminatedWithDeficit ∧
      sampleDeficit.contract.stakingInformation = some ⟨"pool", .idle, 3000000⟩ ∧
      ((system id).run sampleDeficit samplePrepareTwice).receipts = [] ∧
      ((system id).run sampleDeficit samplePrepareTwice).contract.getTerminationStatus ≠
        some .readyToWithdraw ∧
      ((system id).run sampleDeficit samplePrepareTwice).held "pool" = 3000000 ∧
      ((system id).run sampleDeficit (samplePrepareTwice ++
        [.call (sampleEnv "foundation" (MIN_BALANCE_FOR_STORAGE + 1000000) 200000000000001)
          (.terminationWithdraw "receiver")])).receipts = [] := by
  decide

end UncContracts.Lockup
