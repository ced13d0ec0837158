import UncContracts.Lockup.Locked

/-!
# The lockup comes to rest

An operation makes the pool busy, or puts the termination into a stage, until its callback runs.
With nothing in flight the pool is idle and no stage is in progress, provided that every callback
does its work. Three methods fail in this: `refresh_staking_pool_balance`,
`withdraw_all_from_staking_pool` and `termination_prepare_to_withdraw` query the lockup itself,
and the callback of a failed query panics before it sets anything back. A deposit that overflows
the known deposit panics as well.

## Main definitions

* `AtRest`: the pool is idle and no stage of a termination is in progress
* `completes`: a step is no such query and no such overflow
* `Awaited`: whoever is busy is awaited by a callback

## Main results

* `atRest_of_completes`: in a run of such steps the lockup is at rest when nothing is in flight
* `not_atRest`: a refreshed balance leaves the lockup busy for good
-/

namespace UncContracts.Lockup

open Foundation LockupContract

/-- The receipt is a promise of the lockup, or the callback of one. -/
def Receipt.isPromise : Receipt → Bool
  | .promise _ => true
  | .callback _ _ => true
  | .credit _ => false
  | .refund _ _ => false

/-- The pool is idle, and no stage of a termination is in progress. -/
structure AtRest (s : LockupContract) : Prop where
  idle : ∀ information, s.stakingInformation = some information → information.status = .idle
  termination : s.getTerminationStatus ∉ [some .unstakingInProgress,
    some .withdrawingFromStakingPoolInProgress, some .withdrawingFromAccountInProgress]

/-- The step starts no query of the lockup itself, and returns no deposit that overflows. -/
def completes (w : World) : Label → Bool
  | .call _ .refreshStakingPoolBalance => false
  | .call _ .withdrawAllFromStakingPool => false
  | .call _ .terminationPrepareToWithdraw => false
  | .resume i _ =>
    match w.receipts[i]? with
    | some (.callback (.onStakingPoolDeposit amount) (.successful _)) =>
      w.contract.getKnownDepositedBalance + amount ≤ u128Max
    | some (.callback (.onStakingPoolDepositAndStake amount) (.successful _)) =>
      w.contract.getKnownDepositedBalance + amount ≤ u128Max
    | _ => true
  | _ => true

/-! ## Callbacks that do not panic -/

section Callbacks

variable {env : Env} {s : LockupContract} {information : StakingInformation}
  {result : PromiseResult}

theorem onStakingPoolOperation_ok {update : StakingInformation → Exec StakingInformation}
    (hself : env.predecessorAccountId = env.currentAccountId)
    (hsome : s.stakingInformation = some information)
    (hupdate : result.isSuccess = true → ∃ updated,
      update { information with status := .idle } = .ok updated) :
    ∃ x, s.onStakingPoolOperation env result update = .ok x := by
  simp only [onStakingPoolOperation, assertSelf, exists_bind_eq_ok, ensure_eq_ok,
    setStakingPoolStatus_eq_ok]
  refine ⟨(), hself, _, ⟨information, hsome, rfl⟩, ?_⟩
  by_cases hsuccess : result.isSuccess = true
  · obtain ⟨updated, hupdated⟩ := hupdate hsuccess
    simp only [if_pos hsuccess, exists_bind_eq_ok, expect_eq_ok]
    exact ⟨_, rfl, updated, hupdated, _, rfl⟩
  · simp only [if_neg hsuccess]
    exact ⟨_, rfl⟩

/-- The callback of an operation of the owner panics only if a deposit overflows. -/
theorem resume_settled {callback : Callback} {deposit : ℕ}
    (hself : env.predecessorAccountId = env.currentAccountId)
    (hsome : s.stakingInformation = some information)
    (h : callback.settled result.isSuccess information.depositAmount = some deposit) :
    ∃ x, s.resume env callback result = .ok x := by
  have hdeposited : ∀ amount, (result.isSuccess = true →
      information.depositAmount + amount ≤ u128Max) → ∃ x,
        s.onStakingPoolOperation env result (deposited amount) = .ok x := by
    intro amount hmax
    refine onStakingPoolOperation_ok hself hsome ?_
    intro hsuccess
    simp only [deposited, exists_bind_eq_ok, checkedAdd_eq_ok]
    exact ⟨_, ⟨hmax hsuccess, rfl⟩, _, rfl⟩
  have hplain : ∀ update : StakingInformation → StakingInformation, ∃ x,
      s.onStakingPoolOperation env result (fun information => .ok (update information)) = .ok x :=
    fun update => onStakingPoolOperation_ok hself hsome fun _ => ⟨_, rfl⟩
  cases callback <;> simp only [Callback.settled, reduceCtorEq] at h
  case onStakingPoolDeposit amount =>
    obtain ⟨⟨t, b⟩, hx⟩ := hdeposited amount (by grind)
    exact ⟨(t, none), by simp only [resume, onStakingPoolDeposit, hx]; rfl⟩
  case onStakingPoolDepositAndStake amount =>
    obtain ⟨⟨t, b⟩, hx⟩ := hdeposited amount (by grind)
    exact ⟨(t, none), by simp only [resume, onStakingPoolDepositAndStake, hx]; rfl⟩
  case onStakingPoolWithdraw amount =>
    obtain ⟨⟨t, b⟩, hx⟩ := hplain (withdrawn amount)
    have hx' : s.onStakingPoolWithdraw env result amount = .ok (t, b) := hx
    exact ⟨(t, none), by simp only [resume, hx']; rfl⟩
  case onStakingPoolStake amount =>
    obtain ⟨⟨t, b⟩, hx⟩ := hplain id
    have hx' : s.onStakingPoolStake env result amount = .ok (t, b) := hx
    exact ⟨(t, none), by simp only [resume, hx']; rfl⟩
  case onStakingPoolUnstake amount =>
    obtain ⟨⟨t, b⟩, hx⟩ := hplain id
    have hx' : s.onStakingPoolUnstake env result amount = .ok (t, b) := hx
    exact ⟨(t, none), by simp only [resume, hx']; rfl⟩
  case onStakingPoolUnstakeAll =>
    obtain ⟨⟨t, b⟩, hx⟩ := hplain id
    have hx' : s.onStakingPoolUnstakeAll env result = .ok (t, b) := hx
    exact ⟨(t, none), by simp only [resume, hx']; rfl⟩

/-- The callback of a payout does not panic. -/
theorem resume_payout {amount u : ℕ} {receiver : AccountId} {status : TerminationStatus}
    (hself : env.predecessorAccountId = env.currentAccountId)
    (hvesting : s.vestingInformation = .terminating ⟨u, status⟩)
    (hmax : s.lockupInformation.terminationWithdrawnTokens + amount ≤ u128Max) :
    ∃ x, s.resume env (.onWithdrawUnvestedAmount amount receiver) result = .ok x := by
  have hx : ∃ x, s.onWithdrawUnvestedAmount env result amount receiver = .ok x := by
    simp only [onWithdrawUnvestedAmount, assertSelf, exists_bind_eq_ok, ensure_eq_ok]
    refine ⟨(), hself, ?_⟩
    by_cases hsuccess : result.isSuccess = true
    · simp only [if_pos hsuccess, exists_bind_eq_ok, checkedAdd_eq_ok]
      refine ⟨_, ⟨hmax, rfl⟩, ?_⟩
      split
      · exact ⟨_, rfl⟩
      · exact ⟨_, rfl⟩
    · simp only [if_neg hsuccess, exists_bind_eq_ok, setTerminationStatus_eq_ok]
      exact ⟨_, ⟨_, hvesting, rfl⟩, _, rfl⟩
  obtain ⟨⟨t, b⟩, hx⟩ := hx
  refine ⟨(t, none), ?_⟩
  simp only [resume, hx]
  rfl

end Callbacks

/-! ## Whoever is busy is awaited -/

/-- The callback belongs to an operation of the owner, if to one at the pool. -/
def Callback.isOwners (c : Callback) : Prop :=
  c.isPool = true → c.isQuery = false ∧ c.stage = none

/-- A busy pool and a payout in progress are awaited by a callback, no stage is in progress, and
the operations awaited are those of the owner. -/
structure Awaited (s : LockupContract) (pending : List Callback) : Prop where
  busy : ∀ information, s.stakingInformation = some information → information.status = .busy →
    ∃ c ∈ pending, c.isPool = true
  paying : s.getTerminationStatus = some .withdrawingFromAccountInProgress →
    ∃ c ∈ pending, c.isPayout = true
  stages : ∀ stage : Stage, s.getTerminationStatus ≠ some stage.during
  owners : ∀ c ∈ pending, c.isOwners

section Awaited

variable {sha256 : List UInt8 → Hash} {env : Env} {s t : LockupContract} {method : Method}
  {p : Option Promise} {pending pending' : List Callback} {callback : Callback}
  {result : PromiseResult}

/-- What is awaited by a callback is awaited by those left, unless by the one that leaves. -/
theorem exists_tail {kind : Callback → Bool} (h : ∃ c ∈ callback :: pending, kind c = true)
    (hkind : kind callback = false) : ∃ c ∈ pending, kind c = true := by
  obtain ⟨c, hc, hkind'⟩ := h
  rcases List.mem_cons.mp hc with rfl | hc
  · cases hkind.symm.trans hkind'
  · exact ⟨c, hc, hkind'⟩

theorem Awaited.perm (h : Awaited s pending) (hperm : pending.Perm pending') :
    Awaited s pending' := by
  refine ⟨?_, ?_, h.stages, ?_⟩
  · intro information hsome hbusy
    obtain ⟨c, hc, hpool⟩ := h.busy information hsome hbusy
    exact ⟨c, hperm.mem_iff.mp hc, hpool⟩
  · intro hstatus
    obtain ⟨c, hc, hpayout⟩ := h.paying hstatus
    exact ⟨c, hperm.mem_iff.mp hc, hpayout⟩
  · intro c hc
    exact h.owners c (hperm.mem_iff.mpr hc)

/-- A callback joins. -/
theorem Awaited.cons (h : Awaited s pending) (howners : callback.isOwners) :
    Awaited s (callback :: pending) := by
  refine ⟨?_, ?_, h.stages, ?_⟩
  · intro information hsome hbusy
    obtain ⟨c, hc, hpool⟩ := h.busy information hsome hbusy
    exact ⟨c, List.mem_cons_of_mem callback hc, hpool⟩
  · intro hstatus
    obtain ⟨c, hc, hpayout⟩ := h.paying hstatus
    exact ⟨c, List.mem_cons_of_mem callback hc, hpayout⟩
  · intro c hc
    rcases List.mem_cons.mp hc with rfl | hc
    · exact howners
    · exact h.owners c hc

/-- An operation at the pool ends, and the pool is idle. -/
theorem Awaited.of_idle (h : Awaited s (callback :: pending)) (hpayout : callback.isPayout = false)
    (hidle : ∀ information, t.stakingInformation = some information →
      information.status = .idle)
    (hvesting : t.getTerminationStatus = s.getTerminationStatus) : Awaited t pending := by
  refine ⟨?_, ?_, ?_, fun c hc => h.owners c (List.mem_cons_of_mem callback hc)⟩
  · intro information hsome hbusy
    cases hbusy.symm.trans (hidle information hsome)
  · intro hstatus
    rw [hvesting] at hstatus
    exact exists_tail (h.paying hstatus) hpayout
  · intro stage
    rw [hvesting]
    exact h.stages stage

/-- A callback that is neither of the pool nor of a payout leaves. -/
theorem Awaited.tail (h : Awaited s (callback :: pending)) (hpool : callback.isPool = false)
    (hpayout : callback.isPayout = false) : Awaited s pending := by
  refine ⟨?_, ?_, h.stages, fun c hc => h.owners c (List.mem_cons_of_mem callback hc)⟩
  · intro information hsome hbusy
    exact exists_tail (h.busy information hsome hbusy) hpool
  · intro hstatus
    exact exists_tail (h.paying hstatus) hpayout

/-- The vesting changes to one in which nothing is in progress. -/
theorem Awaited.of_vesting (h : Awaited s (callback :: pending)) (hpool : callback.isPool = false)
    (hsame : t.stakingInformation = s.stakingInformation)
    (hstatus : t.getTerminationStatus ∈ [none, some .readyToWithdraw]) : Awaited t pending := by
  refine ⟨?_, ?_, ?_, fun c hc => h.owners c (List.mem_cons_of_mem callback hc)⟩
  · intro information hsome hbusy
    exact exists_tail (h.busy information (hsame ▸ hsome) hbusy) hpool
  · intro hpaying
    simp [hpaying] at hstatus
  · intro stage hduring
    cases stage <;> simp [hduring, Stage.during] at hstatus

/-- The operations of the owner other than the two queries. -/
theorem isOwners_poolPromise {me pool : AccountId} {q : Promise} {c : Callback}
    (h : method.poolPromise me pool = some q) (hc : q.callback = some c)
    (hrefresh : method ≠ .refreshStakingPoolBalance)
    (hwithdrawAll : method ≠ .withdrawAllFromStakingPool) : c.isOwners := by
  cases method <;> simp only [Method.poolPromise, Option.some.injEq, reduceCtorEq] at h
  case refreshStakingPoolBalance => exact absurd rfl hrefresh
  case withdrawAllFromStakingPool => exact absurd rfl hwithdrawAll
  all_goals
    subst h
    cases hc
    exact fun _ => ⟨rfl, rfl⟩

theorem isOwners_of_not_pool {c : Callback} (h : c.isPool = false) : c.isOwners := by
  intro hpool
  cases h.symm.trans hpool

/-- A call that starts no query of the lockup itself. -/
theorem awaited_called (h : Awaited s pending) (hcall : Called sha256 env s method t p)
    (hrefresh : method ≠ .refreshStakingPoolBalance)
    (hwithdrawAll : method ≠ .withdrawAllFromStakingPool)
    (hprepare : method ≠ .terminationPrepareToWithdraw) :
    Awaited t ((p.bind Promise.callback).toList ++ pending) := by
  cases hcall with
  | select hnone => exact h.cons (isOwners_of_not_pool rfl)
  | checkVote => exact h.cons (isOwners_of_not_pool rfl)
  | transfer hidle hlocked hpos howners hbalance => exact h
  | addKey => exact h
  | unselect hsome hidle hdeposit hvesting =>
    refine ⟨?_, h.paying, h.stages, h.owners⟩
    rintro information ⟨⟩
  | pool hsome hidle hvesting hp hbalance =>
    obtain ⟨c, hc, hpool, hstage⟩ := poolPromise_callback hp
    rw [Option.bind_some, hc]
    have hcons := h.cons (isOwners_poolPromise hp hc hrefresh hwithdrawAll)
    exact ⟨fun _ _ _ => ⟨c, List.mem_cons_self, hpool⟩, hcons.paying, h.stages, hcons.owners⟩
  | terminate hvesting hamount hpos hstatus =>
    refine ⟨h.busy, ?_, ?_, h.owners⟩
    · rcases hstatus with rfl | ⟨rfl, -⟩ <;> rintro ⟨⟩
    · rcases hstatus with rfl | ⟨rfl, -⟩ <;> rintro (_ | _) ⟨⟩
  | prepare stage hsome hidle hvesting => exact absurd rfl hprepare
  | @payout u amount receiver hvesting hamount hpos =>
    have howners := isOwners_of_not_pool (c := .onWithdrawUnvestedAmount amount receiver) rfl
    have hcons := h.cons howners
    refine ⟨hcons.busy, fun _ => ⟨_, List.mem_cons_self, rfl⟩, ?_, hcons.owners⟩
    rintro (_ | _) ⟨⟩

/-- A callback that does not panic. -/
theorem awaited_resumed (h : Awaited s (callback :: pending))
    (hresume : Resumed s callback result t p) :
    Awaited t ((p.bind Promise.callback).toList ++ pending) := by
  have howners := h.owners callback List.mem_cons_self
  cases hresume with
  | selected hnone hvesting =>
    refine h.of_idle rfl ?_ rfl
    rintro information ⟨⟩
    rfl
  | settled hsome hdeposit =>
    refine h.of_idle (isPayout_of_isPool (isPool_of_settled hdeposit).1) ?_ rfl
    rintro information ⟨⟩
    rfl
  | voted hdisabled =>
    have htail := h.tail rfl rfl
    exact ⟨htail.busy, htail.paying, htail.stages, htail.owners⟩
  | notVoted => exact h.tail rfl rfl
  | paid hmax hvesting =>
    refine h.of_vesting rfl rfl ?_
    rcases hvesting with ⟨-, rfl⟩ | ⟨-, rfl⟩ <;> simp [getTerminationStatus]
  | notPaid hvesting =>
    refine h.of_vesting rfl rfl ?_
    simp [withTermination, getTerminationStatus]
  | refreshed hsome => cases (howners rfl).1
  | withdrawing hsome hpos => cases (howners rfl).1
  | nothingUnstaked hsome => cases (howners rfl).1
  | moving stage hsome hpos =>
    cases (onQuery_stage stage).symm.trans (howners (onQuery_isPool stage)).2
  | nothingToMove stage hsome hvesting =>
    cases (onQuery_stage stage).symm.trans (howners (onQuery_isPool stage)).2
  | moved stage hsome hvesting =>
    cases (onMove_stage stage _).symm.trans (howners (onMove_isPool stage _)).2
  | notMoved stage hsome hvesting =>
    cases (onMove_stage stage _).symm.trans (howners (onMove_isPool stage _)).2

end Awaited

/-! ## Runs -/

section Runs

variable {sha256 : List UInt8 → Hash} {w w' : World} {l : Label}

/-- An operation of the owner settles, unless a deposit overflows. -/
theorem exists_settled {c : Callback} {success : Bool} {deposit : ℕ} (hpool : c.isPool = true)
    (howners : c.isOwners) (hmax : ∀ amount, success = true →
      c = .onStakingPoolDeposit amount ∨ c = .onStakingPoolDepositAndStake amount →
        deposit + amount ≤ u128Max) :
    ∃ deposit', c.settled success deposit = some deposit' := by
  obtain ⟨hquery, hstage⟩ := howners hpool
  cases c <;> simp only [Callback.isPool, Callback.isQuery, Callback.stage, reduceCtorEq,
    Bool.true_eq_false, Bool.false_eq_true] at hpool hquery hstage
  case onStakingPoolDeposit amount =>
    cases success with
    | false => exact ⟨deposit, rfl⟩
    | true => exact ⟨deposit + amount, by simp [Callback.settled, hmax amount rfl (.inl rfl)]⟩
  case onStakingPoolDepositAndStake amount =>
    cases success with
    | false => exact ⟨deposit, rfl⟩
    | true => exact ⟨deposit + amount, by simp [Callback.settled, hmax amount rfl (.inr rfl)]⟩
  all_goals exact ⟨_, rfl⟩

/-- What every run keeps whose steps complete. -/
structure Completing (w : World) : Prop where
  flight : SingleFlight w.contract w.pending
  awaited : Awaited w.contract w.pending
  booked : Booked u128Max w.contract
  lockup_le : w.contract.lockupInformation.lockupAmount ≤ u128Max

/-- A callback that panics was awaited by nobody who is busy. -/
theorem Completing.panicked {i : ℕ} {env : Env} {callback : Callback} {result : PromiseResult}
    {e : String} {rest : List Receipt} (h : Completing w)
    (htake : takeAt w.receipts i = some (.callback callback result, rest)) (hhost : w.Hosts env)
    (hself : env.predecessorAccountId = w.accountId)
    (hpanic : w.contract.resume env callback result = .error e)
    (hcompletes : completes w (.resume i env) = true) :
    Awaited w.contract (rest.filterMap Receipt.pending) := by
  have hawaited := h.awaited.perm (pending_of_takeAt htake)
  have hexpected := (h.flight.perm (pending_of_takeAt htake)).expected callback List.mem_cons_self
  have hcurrent : env.predecessorAccountId = env.currentAccountId := hself.trans hhost.1.symm
  refine hawaited.tail ?_ ?_
  · rw [← Bool.not_eq_true]
    intro hpool
    -- A callback of the pool panics only if the books overflow, and they do not.
    obtain ⟨information, hsome, -⟩ := hexpected.busy hpool
    have hmax : ∀ amount, result.isSuccess = true →
        callback = .onStakingPoolDeposit amount ∨ callback = .onStakingPoolDepositAndStake amount →
          information.depositAmount + amount ≤ u128Max := by
      intro amount hsuccess hc
      cases result with
      | failed => cases hsuccess
      | successful value =>
        have hget := (takeAt_eq_some.mp htake).1
        rcases hc with rfl | rfl <;>
          simpa [completes, hget, getKnownDepositedBalance, hsome] using hcompletes
    obtain ⟨deposit, hsettled⟩ := exists_settled hpool
      (hawaited.owners callback List.mem_cons_self) hmax
    obtain ⟨x, hx⟩ := resume_settled hcurrent hsome hsettled
    cases hx.symm.trans hpanic
  · rw [← Bool.not_eq_true]
    intro hpayout
    cases callback with
    | onWithdrawUnvestedAmount amount receiver =>
      obtain ⟨u, hvesting, hle⟩ := hexpected.paying amount receiver rfl
      have hbooked := h.booked.terminated_le u _ hvesting
      obtain ⟨x, hx⟩ : ∃ x, w.contract.resume env (.onWithdrawUnvestedAmount amount receiver)
          result = .ok x := resume_payout hcurrent hvesting (by omega)
      cases hx.symm.trans hpanic
    | _ => cases hpayout

/-- Every step that completes keeps whoever is busy awaited. -/
theorem completing_step (h : Completing w) (hcompletes : completes w l = true)
    (hstep : (system sha256).step w l = .ok w') : Completing w' := by
  have hflight := singleFlight_step h.flight hstep
  have hmoves := moves_of_step hstep
  cases l with
  | call env method =>
    cases hmoves with
    | called hhost hcall htokens =>
      refine ⟨hflight, ?_, ?_, ?_⟩
      · refine (awaited_called h.awaited hcall ?_ ?_ ?_).perm (pending_issued _ _ _ _).symm <;>
          · rintro rfl
            cases hcompletes
      · refine h.booked.called hcall ?_
        intro salted schedule amount hvesting hamount
        exact getUnvestedAmount_le h.lockup_le (assertVesting_status hvesting) hamount
      · have hinformation := (called_vesting hcall).1
        simpa [World.issued, hinformation] using h.lockup_le
  | deliver i outcome =>
    obtain ⟨hcontract, -, hperm⟩ := pending_of_deliver hmoves
    refine ⟨hflight, ?_, ?_, ?_⟩
    · rw [hcontract]
      exact h.awaited.perm hperm
    · rw [hcontract]
      exact h.booked
    · rw [hcontract]
      exact h.lockup_le
  | resume i env =>
    cases hmoves with
    | resumed htake hhost hresume htokens =>
      have hpending := pending_of_takeAt htake
      have hexpected := (h.flight.perm hpending).expected _ List.mem_cons_self
      refine ⟨hflight, (awaited_resumed (h.awaited.perm hpending) hresume).perm
        (pending_issued _ _ _ _).symm, h.booked.resumed hexpected hresume, ?_⟩
      have hinformation := (resumed_vesting hresume).1
      simpa [World.issued, hinformation] using h.lockup_le
    | panicked htake hhost hself hpanic =>
      exact ⟨hflight, h.panicked htake hhost hself hpanic hcompletes, h.booked, h.lockup_le⟩
  | receive amount =>
    cases hmoves
    exact ⟨hflight, h.awaited, h.booked, h.lockup_le⟩
  | hold accountId held =>
    cases hmoves
    exact ⟨hflight, h.awaited, h.booked, h.lockup_le⟩

/-- Nobody is busy in a new lockup. -/
theorem completing_new {env : Env} {vesting : Option VestingScheduleOrHash} {s : LockupContract}
    (h : s.IsNew env vesting) (held : AccountId → ℕ) : Completing (World.initial env s held) := by
  obtain ⟨hnone, -, hamount, hwithdrawn⟩ := new_cases h
  have hstatus := new_getTerminationStatus h
  refine ⟨singleFlight_new h, ⟨?_, ?_, ?_, ?_⟩, ⟨?_, ?_, fun _ _ => hwithdrawn⟩, ?_⟩
  · intro information hsome
    cases hnone.symm.trans hsome
  · intro hpaying
    cases hstatus.symm.trans hpaying
  · intro stage hduring
    cases hstatus.symm.trans hduring
  · rintro c ⟨⟩
  · exact hwithdrawn.trans_le (Nat.zero_le _)
  · intro amount status hvesting
    exact absurd hvesting (getTerminationStatus_eq_none.mp hstatus _)
  · exact hamount.trans_le env.accountBalance_le

/-- With nothing in flight nobody is awaited, so nobody is busy. -/
theorem Completing.atRest (h : Completing w) (hquiet : ∀ r ∈ w.receipts, r.isPromise = false) :
    AtRest w.contract := by
  have hpending : ∀ c, c ∉ w.pending := by
    intro c hc
    obtain ⟨r, hr, hpending⟩ := List.mem_filterMap.mp hc
    have hpromise := hquiet r hr
    cases r <;> simp [Receipt.isPromise, Receipt.pending] at hpromise hpending
  refine ⟨?_, ?_⟩
  · intro information hsome
    cases hstatus : information.status with
    | idle => rfl
    | busy =>
      obtain ⟨c, hc, -⟩ := h.awaited.busy information hsome hstatus
      exact absurd hc (hpending c)
  · have hunstaking := h.awaited.stages .unstaking
    have hwithdrawing := h.awaited.stages .withdrawing
    have hpaying : w.contract.getTerminationStatus ≠ some .withdrawingFromAccountInProgress := by
      intro hstatus
      obtain ⟨c, hc, -⟩ := h.awaited.paying hstatus
      exact hpending c hc
    simpa using ⟨hunstaking, hwithdrawing, hpaying⟩

end Runs

/-- An environment of the sample lockup. -/
def sampleEnv (predecessor : AccountId) (balance timestamp : ℕ)
    (h : balance ≤ u128Max := by decide) : Env where
  currentAccountId := "lockup"
  predecessorAccountId := predecessor
  signerAccountPk := "pk"
  attachedDeposit := 0
  accountBalance := balance
  accountLockedBalance := 0
  epochHeight := 1
  blockHeight := 1
  blockTimestamp := timestamp
  attachedDeposit_le := Nat.zero_le _
  accountBalance_le := h
  accountLockedBalance_le := Nat.zero_le _

/-- The balance before a deposit to the pool, and after it. -/
theorem sampleBalance_le : MIN_BALANCE_FOR_STORAGE + 4000000 ≤ u128Max := by decide

theorem sampleRest_le : MIN_BALANCE_FOR_STORAGE + 1000000 ≤ u128Max := by decide

/-- A lockup of four million tokens above the storage, with no vesting. -/
def sampleLockup : LockupContract where
  ownerAccountId := "owner"
  lockupInformation :=
    { lockupAmount := MIN_BALANCE_FOR_STORAGE + 4000000
      terminationWithdrawnTokens := 0
      lockupDuration := 0
      releaseDuration := none
      lockupTimestamp := none
      transfersInformation := .transfersEnabled 0 }
  vestingInformation := .none
  stakingPoolWhitelistAccountId := "whitelist"
  stakingInformation := none
  foundationAccountId := none

theorem isNew_sampleLockup :
    sampleLockup.IsNew (sampleEnv "creator" (MIN_BALANCE_FOR_STORAGE + 4000000) 0) none :=
  ⟨"owner", 0, none, .transfersEnabled 0, none, "whitelist", none, by rfl⟩

/-- The owner selects a whitelisted pool. -/
def sampleSelect : List Label :=
  [.call (sampleEnv "owner" (MIN_BALANCE_FOR_STORAGE + 4000000) 1 sampleBalance_le)
      (.selectStakingPool "pool"),
    .deliver 0 ⟨.successful (.bool true), 0, 0⟩,
    .resume 0 (sampleEnv "lockup" (MIN_BALANCE_FOR_STORAGE + 4000000) 2 sampleBalance_le)]

/-- The owner deposits to the pool. -/
def sampleDeposit : List Label :=
  [.call (sampleEnv "owner" (MIN_BALANCE_FOR_STORAGE + 4000000) 3 sampleBalance_le)
      (.depositToStakingPool 3000000),
    .deliver 0 ⟨.successful .other, 3000000, 0⟩,
    .resume 0 (sampleEnv "lockup" (MIN_BALANCE_FOR_STORAGE + 1000000) 4 sampleRest_le)]

/-- The owner refreshes the balance at the pool. The query fails, and so does its callback. -/
def sampleRefresh : List Label :=
  [.call (sampleEnv "owner" (MIN_BALANCE_FOR_STORAGE + 1000000) 5 sampleRest_le)
      .refreshStakingPoolBalance,
    .deliver 0 ⟨.failed, 0, 0⟩,
    .resume 0 (sampleEnv "lockup" (MIN_BALANCE_FOR_STORAGE + 1000000) 6 sampleRest_le)]

/-- **Progress.** In a run that starts no query of the lockup itself and returns no deposit that
overflows, the lockup is at rest whenever none of its promises is in flight. -/
theorem atRest_of_completes (sha256 : List UInt8 → Hash) (env : Env)
    (vesting : Option VestingScheduleOrHash) (s : LockupContract) (hnew : s.IsNew env vesting)
    (held : AccountId → ℕ) (ls : List Label)
    (hcompletes : ∀ x ∈ (system sha256).steps (World.initial env s held) ls,
      completes x.before x.label = true)
    (hquiet : ∀ r ∈ ((system sha256).run (World.initial env s held) ls).receipts,
      r.isPromise = false) :
    AtRest ((system sha256).run (World.initial env s held) ls).contract :=
  (Machine.run_invariant (I := Completing) (G := fun w l => completes w l = true)
    (fun _ _ _ h hl hstep => completing_step h hl hstep) hcompletes
    (completing_new hnew held)).atRest hquiet

theorem atRest_of_completes_deposit :
    AtRest ((system id).run (World.initial
      (sampleEnv "creator" (MIN_BALANCE_FOR_STORAGE + 4000000) 0) sampleLockup fun _ => 0)
      (sampleSelect ++ sampleDeposit)).contract :=
  atRest_of_completes id _ none sampleLockup isNew_sampleLockup _ _ (by decide) (by decide)

/-- The balance is refreshed, every promise was executed, and the pool is busy. -/
theorem not_atRest :
    ¬ ∀ (sha256 : List UInt8 → Hash) (env : Env) (vesting : Option VestingScheduleOrHash)
        (s : LockupContract), s.IsNew env vesting → ∀ (held : AccountId → ℕ) (ls : List Label),
      (∀ r ∈ ((system sha256).run (World.initial env s held) ls).receipts,
        r.isPromise = false) →
      AtRest ((system sha256).run (World.initial env s held) ls).contract := by
  intro h
  have hrest := h id _ none sampleLockup isNew_sampleLockup (fun _ => 0)
    (sampleSelect ++ sampleDeposit ++ sampleRefresh) (by decide)
  exact absurd (hrest.idle ⟨"pool", .busy, 3000000⟩ (by decide)) (by decide)

end UncContracts.Lockup
