import UncContracts.Lockup.Honest
import UncContracts.Lockup.Recovery

/-!
# Custody of the locked tokens

The tokens on the account, at the selected pool and in flight cover the locked amount after every
run with honest pools. A transfer trusts the known deposit, which only callbacks update; the proof
is that the known deposit, up to the callback that is to update it, never exceeds what the pool
holds.

## Main definitions

* `Funded`: the tokens on the account and in flight cover, with the known deposit, the locked amount
* `Wedged`: a deposit overflowed the known deposit, so that the pool holds more than all tokens
* `Custody`: what every step of honest accounts keeps

## Main results

* `custody_step`: every step of honest accounts keeps custody
* `locked_le_held`: the tokens cover the locked amount after every run
-/

namespace UncContracts.Lockup

open Foundation LockupContract

/-- The tokens on the account and in flight cover, with the known deposit, the locked amount, and
the pool holds the known deposit. -/
structure Funded (w : World) : Prop where
  locked_le : w.contract.lockedAt w.now ≤ w.balance + w.inFlight + w.claimable
  claimable_le : w.claimable ≤ w.heldAtPool

/-- The pool holds more tokens than any amount, and stays busy. -/
structure Wedged (w : World) : Prop where
  busy : ∃ information, w.contract.stakingInformation = some information ∧
    information.status = .busy
  none_pending : ∀ c ∈ w.pending, c.isPool = false
  lt_held : u128Max < w.heldAtPool

/-- What every step of honest accounts keeps. -/
structure Custody (w : World) : Prop where
  flight : SingleFlight w.contract w.pending
  unanswered : ∀ r ∈ w.receipts, r.Unanswered w.accountId
  sent : ∀ r ∈ w.receipts, r.Sent w.contract.getStakingPoolAccountId
  vested : WellVested w.contract
  tokens : Funded w ∨ Wedged w

/-! ## The vesting -/

section Vested

variable {sha256 : List UInt8 → Hash} {env : Env} {s t : LockupContract} {method : Method}
  {p : Option Promise} {callback : Callback} {result : PromiseResult}

/-- A termination takes what the schedule holds back. -/
theorem WellVested.terminated (h : WellVested s) {salted : Option VestingScheduleWithSalt}
    {schedule : VestingSchedule} {amount : ℕ}
    (hvesting : s.assertVesting sha256 salted = .ok schedule)
    (hamount : s.getUnvestedAmount env schedule = .ok amount) :
    amount = s.vestingLeft env.blockTimestamp ∧ amount ≤ s.lockupInformation.lockupAmount := by
  have hsome : s.vestingInformation = .vestingSchedule schedule := by
    rcases assertVesting_cases hvesting with ⟨hash, heq⟩ | heq
    · exact absurd heq (h.public_only hash)
    · exact heq
  have hvalid := h.valid schedule hsome
  rw [getUnvestedAmount_eq hvalid (assertVesting_status hvesting) (by simp [hsome])
    h.lockup_le] at hamount
  cases hamount
  refine ⟨?_, unvestedAt_le hvalid _⟩
  unfold vestingLeft
  rw [hsome]

theorem WellVested.called (h : WellVested s) (hcall : Called sha256 env s method t p) :
    WellVested t := by
  obtain ⟨hinformation, hvesting⟩ := called_vesting hcall
  refine ⟨?_, ?_, ?_, ?_⟩
  · rw [hinformation]
    exact h.lockup_le
  · intro schedule ht
    rcases hvesting with (heq | ⟨_, _, _, -, ht'⟩) | ⟨_, _, _, _, -, -, ht'⟩
    · exact h.valid schedule (heq ▸ ht)
    · cases ht'.symm.trans ht
    · cases ht'.symm.trans ht
  · intro hash ht
    rcases hvesting with (heq | ⟨_, _, _, -, ht'⟩) | ⟨_, _, _, _, -, -, ht'⟩
    · exact h.public_only hash (heq ▸ ht)
    · cases ht'.symm.trans ht
    · cases ht'.symm.trans ht
  · rw [hinformation]
    exact h.booked.called hcall fun _ _ _ hassert hamount => (h.terminated hassert hamount).2

theorem WellVested.resumed (h : WellVested s) (hexpected : Expected s callback)
    (hresume : Resumed s callback result t p) : WellVested t := by
  obtain ⟨hamount, hvesting⟩ := resumed_vesting hresume
  refine ⟨?_, ?_, ?_, ?_⟩
  · rw [hamount]
    exact h.lockup_le
  · intro schedule ht
    rcases hvesting with ⟨heq | ⟨_, _, _, -, ht'⟩, -⟩ | ⟨_, _, -, -, ⟨-, ht'⟩ | ⟨-, ht'⟩⟩
    · exact h.valid schedule (heq ▸ ht)
    all_goals cases ht'.symm.trans ht
  · intro hash ht
    rcases hvesting with ⟨heq | ⟨_, _, _, -, ht'⟩, -⟩ | ⟨_, _, -, -, ⟨-, ht'⟩ | ⟨-, ht'⟩⟩
    · exact h.public_only hash (heq ▸ ht)
    all_goals cases ht'.symm.trans ht
  · rw [hamount]
    exact h.booked.resumed hexpected hresume

/-- A step keeps the vesting well. -/
theorem wellVested_step {w w' : World} {l : Label} (hflight : SingleFlight w.contract w.pending)
    (h : WellVested w.contract) (hstep : (system sha256).step w l = .ok w') :
    WellVested w'.contract := by
  have hmoves := moves_of_step hstep
  cases l with
  | call env method =>
    cases hmoves with
    | called hhost hcall htokens => exact h.called hcall
  | deliver i outcome =>
    rw [(pending_of_deliver hmoves).1]
    exact h
  | resume i env =>
    cases hmoves with
    | resumed htake hhost hresume htokens =>
      refine h.resumed (hflight.expected _ ?_) hresume
      exact (mem_filterMap_of_takeAt htake).mpr (.inl rfl)
    | panicked htake hhost hself hpanic => exact h
  | receive amount =>
    cases hmoves
    exact h
  | hold accountId held =>
    cases hmoves
    exact h

/-- A new lockup with no vesting or a valid public schedule. -/
theorem wellVested_new {vesting : Option VestingScheduleOrHash} (h : s.IsNew env vesting)
    (hvesting : ∀ v, vesting = some v →
      ∃ schedule, v = .vestingSchedule schedule ∧ schedule.assertValid = .ok ()) :
    WellVested s := by
  obtain ⟨-, hsame, hamount, hwithdrawn⟩ := new_cases h
  have hstatus := new_getTerminationStatus h
  refine ⟨hamount.trans_le env.accountBalance_le, ?_, ?_, ?_, ?_, fun _ _ => hwithdrawn⟩
  · intro schedule hs
    rcases vesting with _ | v
    · cases hsame.symm.trans hs
    · obtain ⟨schedule', rfl, hvalid⟩ := hvesting _ rfl
      cases hsame.symm.trans hs
      exact assertValid_eq_ok.mp hvalid
  · intro hash hs
    rcases vesting with _ | v
    · cases hsame.symm.trans hs
    · obtain ⟨schedule', rfl, -⟩ := hvesting _ rfl
      cases hsame.symm.trans hs
  · exact hwithdrawn.trans_le (Nat.zero_le _)
  · intro amount status hs
    exact absurd hs (getTerminationStatus_eq_none.mp hstatus _)

end Vested

/-! ## The amounts of the receipts -/

section Amounts

variable {w : World} {receipts rest : List Receipt} {r : Receipt} {env : Env} {t : LockupContract}
  {p : Option Promise}

/-- A receipt that awaits nothing at the pool updates no deposit. -/
theorem toAdd_of_not_pool (h : ∀ c, r.pending = some c → c.isPool = false) :
    r.toAdd = 0 ∧ r.toTake = 0 := by
  cases r with
  | callback c result =>
    have hpool := h c rfl
    cases result <;> cases c <;> first | exact ⟨rfl, rfl⟩ | cases hpool
  | _ => exact ⟨rfl, rfl⟩

theorem sum_toAdd_eq_zero (h : ∀ r ∈ receipts, r.toAdd = 0 ∧ r.toTake = 0) :
    (receipts.map Receipt.toAdd).sum = 0 ∧ (receipts.map Receipt.toTake).sum = 0 := by
  constructor
  · refine List.sum_eq_zero ?_
    intro n hn
    obtain ⟨r, hr, rfl⟩ := List.mem_map.mp hn
    exact (h r hr).1
  · refine List.sum_eq_zero ?_
    intro n hn
    obtain ⟨r, hr, rfl⟩ := List.mem_map.mp hn
    exact (h r hr).2

/-- Where nothing is awaited at the pool, no deposit is to be updated. -/
theorem sum_toAdd_of_not_pool
    (h : ∀ c ∈ receipts.filterMap Receipt.pending, c.isPool = false) :
    (receipts.map Receipt.toAdd).sum = 0 ∧ (receipts.map Receipt.toTake).sum = 0 := by
  apply sum_toAdd_eq_zero
  intro r hr
  apply toAdd_of_not_pool
  intro c hc
  exact h c (List.mem_filterMap.mpr ⟨r, hr, hc⟩)

theorem claimable_of_not_pool (h : ∀ c ∈ w.pending, c.isPool = false) :
    w.claimable = w.contract.getKnownDepositedBalance := by
  obtain ⟨hadd, htake⟩ := sum_toAdd_of_not_pool h
  unfold World.claimable
  rw [hadd, htake]
  omega

/-- A promise updates no deposit. -/
theorem claimable_issued : (w.issued env t receipts p).claimable =
    t.getKnownDepositedBalance + (receipts.map Receipt.toAdd).sum -
      (receipts.map Receipt.toTake).sum := by
  unfold World.claimable World.issued
  cases p <;> simp [Receipt.toAdd, Receipt.toTake]

theorem inFlight_issued : (w.issued env t receipts p).inFlight =
    (receipts.map Receipt.inFlight).sum + ((p.map fun q => (Receipt.promise q).inFlight).getD 0) := by
  unfold World.inFlight World.issued
  cases p <;> simp

end Amounts

/-! ## Calls -/

section Called

variable {sha256 : List UInt8 → Hash} {env : Env} {w : World} {t : LockupContract}
  {method : Method} {p : Option Promise}

/-- While the pool is idle, the known deposit is claimable. -/
theorem Custody.claimable_of_idle (h : Custody w)
    (hidle : ∀ information, w.contract.stakingInformation = some information →
      information.status = .idle) : w.claimable = w.contract.getKnownDepositedBalance :=
  claimable_of_not_pool fun c hc => (h.flight.expected c hc).isPool_eq_false hidle

/-- What the pool holds does not depend on its status. -/
theorem heldAtPool_issued {receipts : List Receipt}
    (h : t.getStakingPoolAccountId = w.contract.getStakingPoolAccountId) :
    (w.issued env t receipts p).heldAtPool = w.heldAtPool := by
  unfold World.heldAtPool World.issued
  simp only [h]

/-- A call that keeps the pool and the known deposit, locks no more tokens and takes none. -/
theorem Funded.called (h : Funded w)
    (hpool : t.getStakingPoolAccountId = w.contract.getStakingPoolAccountId)
    (hknown : t.getKnownDepositedBalance = w.contract.getKnownDepositedBalance)
    (hlocked : t.lockedAt env.blockTimestamp ≤ w.contract.lockedAt w.now)
    (htokens : World.tokensOf p ≤ w.balance)
    (hflight : World.tokensOf p ≤ (p.map fun q => (Receipt.promise q).inFlight).getD 0) :
    Funded (w.issued env t w.receipts p) := by
  have hclaimable : (w.issued env t w.receipts p).claimable = w.claimable := by
    rw [claimable_issued, hknown]
    rfl
  have hle := h.locked_le
  have hclaim := h.claimable_le
  refine ⟨?_, ?_⟩
  · rw [hclaimable, inFlight_issued]
    simp only [World.issued, World.inFlight] at hle ⊢
    omega
  · rw [hclaimable, heldAtPool_issued hpool]
    exact hclaim

/-- Every accepted call keeps the tokens, if nothing is wedged. -/
theorem Custody.funded_called (h : Custody w) (hfunded : Funded w) (hhost : w.Hosts env)
    (hcall : Called sha256 env w.contract method t p) (htokens : World.tokensOf p ≤ w.balance) :
    Funded (w.issued env t w.receipts p) := by
  have hmelts := lockedAt_antitone h.vested hhost.2.2
  have hle := hfunded.locked_le
  have hclaim := hfunded.claimable_le
  cases hcall with
  | select hnone => exact hfunded.called rfl rfl hmelts htokens le_rfl
  | checkVote => exact hfunded.called rfl rfl hmelts htokens le_rfl
  | addKey => exact hfunded.called rfl rfl hmelts htokens le_rfl
  | terminate hvesting hamount hpos hstatus =>
    refine hfunded.called rfl rfl ?_ htokens le_rfl
    rw [(h.vested.terminated hvesting hamount).1, lockedAt_withTermination]
    exact hmelts
  | @payout u _ _ hvesting hamount hpos =>
    refine hfunded.called rfl rfl ?_ htokens le_rfl
    have hsame := lockedAt_congr (s := w.contract)
      (t := w.contract.withTermination u .withdrawingFromAccountInProgress) rfl
      (fun time => by simp only [vestingLeft, withTermination, hvesting]) env.blockTimestamp
    rw [hsame]
    exact hmelts
  | unselect hsome hidle hdeposit hvesting =>
    have hidle' : ∀ information', w.contract.stakingInformation = some information' →
        information'.status = .idle := by
      intro information' hsome'
      cases hsome.symm.trans hsome'
      exact hidle
    have hzero : w.claimable = 0 := by
      rw [h.claimable_of_idle hidle']
      simp [getKnownDepositedBalance, hsome, hdeposit]
    have hnone : ∀ c ∈ w.receipts.filterMap Receipt.pending, c.isPool = false :=
      fun c hc => (h.flight.expected c hc).isPool_eq_false hidle'
    obtain ⟨hadd, htake⟩ := sum_toAdd_of_not_pool hnone
    refine ⟨?_, ?_⟩
    · rw [claimable_issued, inFlight_issued]
      simp only [World.issued, World.inFlight, getKnownDepositedBalance] at hle ⊢
      have hsame := lockedAt_congr (s := w.contract)
        (t := { w.contract with stakingInformation := none }) rfl (fun _ => rfl) env.blockTimestamp
      rw [hsame]
      simp only [World.tokensOf, Option.map_none, Option.getD_none]
      omega
    · rw [claimable_issued, hadd]
      simp [getKnownDepositedBalance]
  | @pool _ information q hsome hidle hvesting hp hbalance =>
    have hinFlight : (Receipt.promise q).inFlight = q.tokens := by
      cases method <;> simp only [Method.poolPromise, Option.some.injEq, reduceCtorEq] at hp <;>
        subst hp <;> rfl
    have hsame := lockedAt_congr (s := w.contract) (t := w.contract.withPool information .busy)
      rfl (fun _ => rfl) env.blockTimestamp
    refine hfunded.called ?_ ?_ (hsame.trans_le hmelts) htokens hinFlight.ge
    · simp [getStakingPoolAccountId, withPool, hsome]
    · simp [getKnownDepositedBalance, withPool, hsome]
  | @prepare information u stage hsome hidle hvesting =>
    have hsame := lockedAt_congr (s := w.contract)
      (t := (w.contract.withTermination u stage.during).withPool information .busy) rfl
      (fun time => by simp only [vestingLeft, withTermination, withPool, hvesting])
      env.blockTimestamp
    refine hfunded.called ?_ ?_ (hsame.trans_le hmelts) htokens le_rfl
    · simp [getStakingPoolAccountId, withPool, withTermination, hsome]
    · simp [getKnownDepositedBalance, withPool, withTermination, hsome]
  | @transfer amount locked receiver hidle hlocked hpos howners hbalance =>
    -- Nothing awaits the known deposit, so that what the owner may take leaves the locked amount.
    rw [getLockedAmount_eq h.vested] at hlocked
    cases hlocked
    have hknown := h.claimable_of_idle hidle
    have howned : amount ≤ w.balance + w.contract.getKnownDepositedBalance -
        w.contract.lockedAt env.blockTimestamp := by
      rw [hhost.2.1] at howners
      exact howners.trans (Nat.sub_le_sub_right (saturatingAdd_le_add _ _) _)
    refine ⟨?_, ?_⟩
    · rw [claimable_issued, inFlight_issued]
      simp only [World.issued, World.tokensOf, Promise.tokens, World.inFlight, World.claimable,
        Option.map_some, Option.getD_some] at hle hknown ⊢
      omega
    · rw [claimable_issued, heldAtPool_issued rfl]
      exact hclaim

end Called

/-! ## Callbacks -/

section Resumed

variable {sha256 : List UInt8 → Hash} {env : Env} {w : World} {t : LockupContract}
  {p : Option Promise} {callback : Callback} {result : PromiseResult} {i : ℕ}
  {rest : List Receipt} {r : Receipt}

/-- A callback updates the known deposit by what it is to add and to take. -/
theorem settled_eq {deposit deposit' : ℕ}
    (h : callback.settled result.isSuccess deposit = some deposit') :
    deposit' = deposit + (Receipt.callback callback result).toAdd -
      (Receipt.callback callback result).toTake := by
  cases callback <;> cases result <;>
    simp_all [Callback.settled, PromiseResult.isSuccess, Receipt.toAdd, Receipt.toTake]

/-- A callback that is to update the known deposit settles, unless a deposit overflows. -/
theorem settles_or_overflows (callback : Callback) (result : PromiseResult) (deposit : ℕ) :
    ((Receipt.callback callback result).toAdd = 0 ∧ (Receipt.callback callback result).toTake = 0) ∨
      (∃ deposit', callback.settled result.isSuccess deposit = some deposit') ∨
      (Receipt.callback callback result).toTake = 0 ∧
        u128Max < deposit + (Receipt.callback callback result).toAdd := by
  have hdeposit : ∀ amount, (∃ deposit', (if deposit + amount ≤ u128Max then some (deposit + amount)
      else none) = some deposit') ∨ 0 = 0 ∧ u128Max < deposit + amount := by
    intro amount
    by_cases hmax : deposit + amount ≤ u128Max
    · exact .inl ⟨_, if_pos hmax⟩
    · exact .inr ⟨rfl, Nat.lt_of_not_le hmax⟩
  cases callback with
  | onStakingPoolDeposit amount =>
    cases result with
    | failed => exact .inl ⟨rfl, rfl⟩
    | successful value => exact .inr (hdeposit amount)
  | onStakingPoolDepositAndStake amount =>
    cases result with
    | failed => exact .inl ⟨rfl, rfl⟩
    | successful value => exact .inr (hdeposit amount)
  | onStakingPoolWithdraw amount => exact .inr (.inl ⟨_, rfl⟩)
  | _ => cases result <;> exact .inl ⟨rfl, rfl⟩

/-- The operation at the pool that is taken was the only one. -/
theorem Custody.alone (h : Custody w) (htake : takeAt w.receipts i = some (r, rest))
    {c : Callback} (hr : r.pending = some c) (hpool : c.isPool = true) :
    ∀ c' ∈ rest.filterMap Receipt.pending, c'.isPool = false := by
  have hperm := pending_of_takeAt htake
  rw [hr] at hperm
  have hle := (h.flight.perm hperm).pool_le
  simp only [Option.toList_some, List.singleton_append, List.countP_cons, hpool, if_true] at hle
  have hzero : (rest.filterMap Receipt.pending).countP Callback.isPool = 0 := by omega
  intro c' hc'
  simpa using List.countP_eq_zero.mp hzero c' hc'

/-- A callback that leaves the pool and lets the tokens in flight go. -/
theorem Funded.resumed (h : Funded w) (htake : takeAt w.receipts i = some (r, rest))
    (hpool : t.getStakingPoolAccountId = w.contract.getStakingPoolAccountId ∨ w.claimable = 0)
    (hclaimable : t.getKnownDepositedBalance + (rest.map Receipt.toAdd).sum -
      (rest.map Receipt.toTake).sum = w.claimable)
    (hlocked : t.lockedAt env.blockTimestamp + r.inFlight ≤ w.contract.lockedAt w.now) :
    Funded (w.issued env t rest none) := by
  have hle := h.locked_le
  have hsum := sum_of_takeAt htake Receipt.inFlight
  refine ⟨?_, ?_⟩
  · rw [claimable_issued, hclaimable, inFlight_issued]
    simp only [World.issued, World.tokensOf, World.inFlight, Option.map_none, Option.getD_none]
      at hle ⊢
    omega
  · rw [claimable_issued, hclaimable]
    rcases hpool with hpool | hzero
    · rw [heldAtPool_issued hpool]
      exact h.claimable_le
    · rw [hzero]
      exact Nat.zero_le _

/-- Every callback that does not panic keeps the tokens. -/
theorem Custody.funded_resumed (h : Custody w) (hfunded : Funded w) (hhost : w.Hosts env)
    (htake : takeAt w.receipts i = some (.callback callback result, rest))
    (hresume : Resumed w.contract callback result t p) : Funded (w.issued env t rest p) := by
  have hmelts := lockedAt_antitone h.vested hhost.2.2
  have hunanswered := h.unanswered _ ((mem_of_takeAt htake).mpr (.inl rfl))
  obtain ⟨hquery, rfl⟩ := resumed_unanswered hresume hunanswered
  have hexpected : Expected w.contract callback :=
    h.flight.expected callback ((mem_filterMap_of_takeAt htake).mpr (.inl rfl))
  have hadd := sum_of_takeAt htake Receipt.toAdd
  have htakes := sum_of_takeAt htake Receipt.toTake
  cases hresume with
  | @selected pool hnone hvesting =>
    have hnot : ∀ c ∈ w.pending, c.isPool = false := fun c hc =>
      (h.flight.expected c hc).isPool_eq_false fun _ hsome => by cases hnone.symm.trans hsome
    obtain ⟨hzero, -⟩ := sum_toAdd_of_not_pool hnot
    have hknown : w.contract.getKnownDepositedBalance = 0 := by
      simp [getKnownDepositedBalance, hnone]
    have hsame := lockedAt_congr (s := w.contract)
      (t := { w.contract with stakingInformation := some ⟨pool, .idle, 0⟩ }) rfl (fun _ => rfl)
      env.blockTimestamp
    have hclaimable : w.claimable = 0 := by
      rw [claimable_of_not_pool hnot, hknown]
    refine hfunded.resumed htake (.inr hclaimable) ?_ (hsame.trans_le hmelts)
    rw [hclaimable]
    simp only [getKnownDepositedBalance, Option.map_some, Option.getD_some]
    omega
  | @settled _ _ information deposit hsome hdeposit =>
    obtain ⟨haddRest, htakeRest⟩ := sum_toAdd_of_not_pool
      (h.alone htake rfl (isPool_of_settled hdeposit).1)
    have hsettled := settled_eq hdeposit
    have hsame := lockedAt_congr (s := w.contract)
      (t := w.contract.withPool { information with depositAmount := deposit } .idle) rfl
      (fun _ => rfl) env.blockTimestamp
    have hinFlight : (Receipt.callback callback result).inFlight = 0 := by
      cases callback <;> first | rfl | cases hdeposit
    refine hfunded.resumed htake (.inl ?_) ?_ ?_
    · simp [getStakingPoolAccountId, withPool, hsome]
    · simp only [World.claimable, getKnownDepositedBalance, withPool, hsome, Option.map_some,
        Option.getD_some]
      omega
    · rw [hsame, hinFlight]
      exact hmelts
  | @paid amount receiver value vesting foundation hmax hvesting =>
    obtain ⟨u, hs, hamount⟩ := hexpected.paying amount receiver rfl
    have hu : w.contract.getTerminatedUnvestedBalance = u := by
      simp only [getTerminatedUnvestedBalance, hs]
    rw [hu] at hvesting
    have hpaid := lockedAt_paid (t := { w.contract with
        lockupInformation := { w.contract.lockupInformation with
          terminationWithdrawnTokens :=
            w.contract.lockupInformation.terminationWithdrawnTokens + amount }
        vestingInformation := vesting
        foundationAccountId := foundation }) h.vested hs hamount rfl ?_ env.blockTimestamp
    · refine hfunded.resumed htake (.inl rfl) ?_ (hpaid.trans hmelts)
      simp only [World.claimable, hadd, htakes, Receipt.toAdd, Receipt.toTake, Nat.zero_add]
      rfl
    · intro time
      rcases hvesting with ⟨-, rfl⟩ | ⟨hle, rfl⟩
      · rfl
      · exact (Nat.sub_eq_zero_of_le hle).symm
  | @notPaid amount receiver termination hvesting =>
    have hsame := lockedAt_congr (s := w.contract)
      (t := w.contract.withTermination termination.unvestedAmount .readyToWithdraw) rfl
      (fun time => by simp only [vestingLeft, withTermination, hvesting]) env.blockTimestamp
    refine hfunded.resumed htake (.inl rfl) ?_ (hsame.trans_le hmelts)
    simp only [World.claimable, hadd, htakes, Receipt.toAdd, Receipt.toTake, Nat.zero_add]
    rfl
  | moved stage hsome hvesting => cases stage <;> cases hunanswered.1 _ rfl
  | notMoved stage hsome hvesting => cases stage <;> cases hunanswered.1 _ rfl
  | nothingToMove stage hsome hvesting => cases stage <;> cases hquery
  | _ => cases hquery

/-- A callback that panics keeps the tokens, unless a deposit overflows, and then the pool holds
more than any amount. -/
theorem Custody.panicked {e : String} (h : Custody w) (hfunded : Funded w) (hhost : w.Hosts env)
    (htake : takeAt w.receipts i = some (.callback callback result, rest))
    (hself : env.predecessorAccountId = w.accountId)
    (hpanic : w.contract.resume env callback result = .error e) :
    Funded { w with receipts := rest, now := env.blockTimestamp } ∨
      Wedged { w with receipts := rest, now := env.blockTimestamp } := by
  have hcurrent : env.predecessorAccountId = env.currentAccountId := hself.trans hhost.1.symm
  have hexpected : Expected w.contract callback :=
    h.flight.expected callback ((mem_filterMap_of_takeAt htake).mpr (.inl rfl))
  have hadd := sum_of_takeAt htake Receipt.toAdd
  have htakes := sum_of_takeAt htake Receipt.toTake
  have hmelts := lockedAt_antitone h.vested hhost.2.2
  -- The callback of a payout does not panic, so that the callback carries no tokens.
  have hinFlight : (Receipt.callback callback result).inFlight = 0 := by
    cases callback with
    | onWithdrawUnvestedAmount amount receiver =>
      obtain ⟨u, hvesting, hle⟩ := hexpected.paying amount receiver rfl
      have hbooked := h.vested.booked.terminated_le u _ hvesting
      have hmax := h.vested.lockup_le
      obtain ⟨x, hx⟩ : ∃ x, w.contract.resume env (.onWithdrawUnvestedAmount amount receiver)
          result = .ok x := resume_payout hcurrent hvesting (by omega)
      cases hx.symm.trans hpanic
    | _ => rfl
  have hplain : (Receipt.callback callback result).toAdd = 0 ∧
      (Receipt.callback callback result).toTake = 0 →
      Funded { w with receipts := rest, now := env.blockTimestamp } := by
    rintro ⟨hzeroAdd, hzeroTake⟩
    have hfunded' : Funded (w.issued env w.contract rest none) := by
      refine hfunded.resumed htake (.inl rfl) ?_ (by rw [hinFlight]; exact hmelts)
      simp only [World.claimable, hadd, htakes, hzeroAdd, hzeroTake, Nat.zero_add]
    simpa [World.issued, World.tokensOf] using hfunded'
  by_cases hpool : callback.isPool = true
  · obtain ⟨information, hsome, hbusy⟩ := hexpected.busy hpool
    rcases settles_or_overflows callback result information.depositAmount with
      hzero | ⟨deposit, hsettled⟩ | ⟨hzeroTake, hover⟩
    · exact .inl (hplain hzero)
    · obtain ⟨x, hx⟩ := resume_settled hcurrent hsome hsettled
      cases hx.symm.trans hpanic
    · have hnone := h.alone htake rfl hpool
      obtain ⟨haddRest, htakeRest⟩ := sum_toAdd_of_not_pool hnone
      refine .inr ⟨⟨information, hsome, hbusy⟩, hnone, ?_⟩
      have hclaim := hfunded.claimable_le
      simp only [World.claimable, getKnownDepositedBalance, hsome, Option.map_some,
        Option.getD_some] at hclaim
      have hheld : u128Max < w.heldAtPool := by omega
      exact hheld
  · refine .inl (hplain (toAdd_of_not_pool ?_))
    rintro c ⟨⟩
    rwa [Bool.not_eq_true] at hpool

end Resumed

/-! ## Deliveries -/

section Delivered

variable {w : World} {i : ℕ} {rest : List Receipt} {r : Receipt} {outcome : Outcome}
  {receiverId : AccountId} {method : ExternalMethod} {deposit : ℕ} {callback : Callback}

/-- What an honest account does with a call. -/
theorem honest_answered
    (htake : takeAt w.receipts i =
      some (.promise (.functionCall receiverId method deposit callback), rest))
    (h : honest w (.deliver i outcome) = true) :
    (outcome.result = .failed ∧ w.held receiverId ≤ outcome.held ∧ deposit ≤ outcome.sent) ∨
      ∃ value, outcome.result = .successful value ∧
        ((∃ amount, method = .withdraw amount ∧ w.held receiverId ≤ outcome.held + amount ∧
          amount ≤ outcome.sent) ∨
        (∀ amount, method ≠ .withdraw amount) ∧ w.held receiverId + deposit ≤ outcome.held) := by
  have hget := (takeAt_eq_some.mp htake).1
  simp only [honest, hget] at h
  cases hresult : outcome.result with
  | failed =>
    rw [hresult] at h
    exact .inl ⟨rfl, by simpa using h⟩
  | successful value =>
    rw [hresult] at h
    refine .inr ⟨value, rfl, ?_⟩
    cases method with
    | withdraw amount => exact .inl ⟨amount, rfl, by simpa using h⟩
    | _ => exact .inr ⟨by rintro amount ⟨⟩, by simpa using h⟩

/-- A delivery that updates no deposit keeps the tokens, if it loses none. -/
theorem Funded.moved (balance : ℕ) (new : List Receipt) (h : Funded w)
    (htake : takeAt w.receipts i = some (r, rest))
    (hr : r.toAdd = 0 ∧ r.toTake = 0) (hnew : ∀ r ∈ new, r.toAdd = 0 ∧ r.toTake = 0)
    (htokens : w.balance + r.inFlight ≤ balance + (new.map Receipt.inFlight).sum) :
    Funded { w with balance, receipts := rest ++ new } := by
  have hadd := sum_of_takeAt htake Receipt.toAdd
  have htakes := sum_of_takeAt htake Receipt.toTake
  have hsum := sum_of_takeAt htake Receipt.inFlight
  obtain ⟨haddNew, htakeNew⟩ := sum_toAdd_eq_zero hnew
  have hclaimable : World.claimable { w with balance, receipts := rest ++ new } = w.claimable := by
    simp only [World.claimable, List.map_append, List.sum_append, hadd, htakes, hr.1, hr.2,
      haddNew, htakeNew, Nat.zero_add, Nat.add_zero]
  have hle := h.locked_le
  refine ⟨?_, ?_⟩
  · rw [hclaimable]
    simp only [World.inFlight, List.map_append, List.sum_append] at hle ⊢
    omega
  · rw [hclaimable]
    exact h.claimable_le

/-- What the pool holds once an account holds something else. -/
theorem le_heldAtPool_update (receipts : List Receipt) {n : ℕ} (h : w.held receiverId ≤ n) :
    w.heldAtPool ≤ World.heldAtPool
      { w with held := Function.update w.held receiverId n, receipts } := by
  unfold World.heldAtPool
  cases w.contract.getStakingPoolAccountId with
  | none => exact le_rfl
  | some pool =>
    by_cases heq : pool = receiverId
    · subst heq
      simpa using h
    · simp [Function.update_of_ne heq]

theorem sum_credits (f : Receipt → ℕ) (sent : ℕ) (h : f (.credit 0) = 0) :
    ((World.credits sent).map f).sum = f (.credit sent) := by
  unfold World.credits
  split
  · next hzero =>
    rw [hzero, h]
    rfl
  · exact Nat.add_zero _

/-- The world after an account was called. -/
def World.answered (w : World) (receiverId : AccountId) (outcome : Outcome) (callback : Callback)
    (rest : List Receipt) : World :=
  { w with
    held := Function.update w.held receiverId outcome.held
    receipts := rest ++ .callback callback outcome.result :: World.credits outcome.sent }

theorem claimable_answered : (w.answered receiverId outcome callback rest).claimable =
    w.contract.getKnownDepositedBalance +
      ((rest.map Receipt.toAdd).sum + (Receipt.callback callback outcome.result).toAdd) -
      ((rest.map Receipt.toTake).sum + (Receipt.callback callback outcome.result).toTake) := by
  have hadd := sum_credits Receipt.toAdd outcome.sent rfl
  have htake := sum_credits Receipt.toTake outcome.sent rfl
  simp only [World.claimable, World.answered, List.map_append, List.sum_append, List.map_cons,
    List.sum_cons, hadd, htake, Receipt.toAdd, Receipt.toTake, Nat.add_zero]

/-- What was claimable before an answer. -/
theorem claimable_awaited
    (htake : takeAt w.receipts i =
      some (.promise (.functionCall receiverId method deposit callback), rest)) :
    w.claimable = w.contract.getKnownDepositedBalance + (rest.map Receipt.toAdd).sum -
      (rest.map Receipt.toTake).sum := by
  have hadd := sum_of_takeAt htake Receipt.toAdd
  have htakes := sum_of_takeAt htake Receipt.toTake
  simp only [World.claimable, hadd, htakes, Receipt.toAdd, Receipt.toTake, Nat.zero_add]

/-- Where the callback is to update no deposit, what is claimable stays. -/
theorem claimable_answered_of_plain (hfunded : Funded w)
    (htake : takeAt w.receipts i =
      some (.promise (.functionCall receiverId method deposit callback), rest))
    (hplain : (Receipt.callback callback outcome.result).toAdd = 0 ∧
      (Receipt.callback callback outcome.result).toTake = 0)
    (hback : deposit ≤ outcome.sent) (hheld : w.held receiverId ≤ outcome.held) :
    deposit + w.claimable ≤
        outcome.sent + (w.answered receiverId outcome callback rest).claimable ∧
      (w.answered receiverId outcome callback rest).claimable ≤
        (w.answered receiverId outcome callback rest).heldAtPool := by
  rw [UncContracts.Lockup.claimable_answered, hplain.1, hplain.2, Nat.add_zero, Nat.add_zero,
    ← claimable_awaited htake]
  exact ⟨Nat.add_le_add_right hback _, hfunded.claimable_le.trans (le_heldAtPool_update _ hheld)⟩

/-- An operation at the pool is the only one, and is called at the selected pool. -/
theorem Custody.claimable_selected (h : Custody w) (hfunded : Funded w) (outcome : Outcome)
    (htake : takeAt w.receipts i =
      some (.promise (.functionCall receiverId method deposit callback), rest))
    (hpool : callback.isPool = true)
    (hreceiver : w.contract.getStakingPoolAccountId = some receiverId) :
    w.claimable = w.contract.getKnownDepositedBalance ∧ w.claimable ≤ w.held receiverId ∧
      (w.answered receiverId outcome callback rest).heldAtPool = outcome.held ∧
      (w.answered receiverId outcome callback rest).claimable =
        w.contract.getKnownDepositedBalance +
          (Receipt.callback callback outcome.result).toAdd -
          (Receipt.callback callback outcome.result).toTake := by
  have hclaim := hfunded.claimable_le
  obtain ⟨haddRest, htakeRest⟩ := sum_toAdd_of_not_pool (h.alone htake rfl hpool)
  refine ⟨?_, ?_, ?_, ?_⟩
  · rw [claimable_awaited htake, haddRest, htakeRest]
    rfl
  · unfold World.heldAtPool at hclaim
    rwa [hreceiver] at hclaim
  · simp [World.heldAtPool, World.answered, hreceiver]
  · rw [UncContracts.Lockup.claimable_answered, haddRest, htakeRest, Nat.zero_add, Nat.zero_add]

/-- The deposit moves to the callback or comes back, and the pool holds what is claimable. -/
theorem Custody.claimable_answered (h : Custody w) (hfunded : Funded w)
    (htake : takeAt w.receipts i =
      some (.promise (.functionCall receiverId method deposit callback), rest))
    (hhonest : honest w (.deliver i outcome) = true) :
    deposit + w.claimable ≤
        outcome.sent + (w.answered receiverId outcome callback rest).claimable ∧
      (w.answered receiverId outcome callback rest).claimable ≤
        (w.answered receiverId outcome callback rest).heldAtPool := by
  have hsent := h.sent _ ((mem_of_takeAt htake).mpr (.inl rfl))
  rcases honest_answered htake hhonest with ⟨hfailed, hheld, hback⟩ |
    ⟨value, hsuccess, hsuccessful⟩
  · refine claimable_answered_of_plain hfunded htake ?_ hback hheld
    rw [hfailed]
    cases callback <;> exact ⟨rfl, rfl⟩
  · have hselected := h.claimable_selected hfunded outcome htake
    cases callback with
    | onStakingPoolDeposit amount =>
      obtain ⟨hreceiver, rfl, rfl⟩ := hsent
      obtain ⟨hknown, hle, hheld, hclaimable⟩ := hselected rfl hreceiver
      rcases hsuccessful with ⟨_, hmethod, -⟩ | ⟨-, hmore⟩
      · cases hmethod
      · simp only [hsuccess, Receipt.toAdd, Receipt.toTake] at hclaimable
        omega
    | onStakingPoolDepositAndStake amount =>
      obtain ⟨hreceiver, rfl, rfl⟩ := hsent
      obtain ⟨hknown, hle, hheld, hclaimable⟩ := hselected rfl hreceiver
      rcases hsuccessful with ⟨_, hmethod, -⟩ | ⟨-, hmore⟩
      · cases hmethod
      · simp only [hsuccess, Receipt.toAdd, Receipt.toTake] at hclaimable
        omega
    | onStakingPoolWithdraw amount =>
      obtain ⟨hreceiver, rfl, rfl⟩ := hsent
      obtain ⟨hknown, hle, hheld, hclaimable⟩ := hselected rfl hreceiver
      rcases hsuccessful with ⟨_, hmethod, hless, hback⟩ | ⟨hmethod, -⟩
      · cases hmethod
        simp only [hsuccess, Receipt.toAdd, Receipt.toTake] at hclaimable
        omega
      · exact absurd rfl (hmethod amount)
    | _ =>
      obtain ⟨hzero, hother⟩ := hsent
      rcases hsuccessful with ⟨amount, hmethod, -⟩ | ⟨-, hmore⟩
      · exact absurd hmethod (hother amount)
      · refine claimable_answered_of_plain hfunded htake ?_ (by omega) (by omega)
        rw [hsuccess]
        exact ⟨rfl, rfl⟩

/-- An honest account that is called keeps the tokens. -/
theorem Custody.funded_answered (h : Custody w) (hfunded : Funded w)
    (htake : takeAt w.receipts i =
      some (.promise (.functionCall receiverId method deposit callback), rest))
    (hhonest : honest w (.deliver i outcome) = true) :
    Funded (w.answered receiverId outcome callback rest) := by
  obtain ⟨hkept, hclaim⟩ := h.claimable_answered hfunded htake hhonest
  refine ⟨?_, hclaim⟩
  have hsum := sum_of_takeAt htake Receipt.inFlight
  have hcredits := sum_credits Receipt.inFlight outcome.sent rfl
  have hflight : w.inFlight + outcome.sent ≤
      (w.answered receiverId outcome callback rest).inFlight + deposit := by
    simp only [World.answered, World.inFlight, List.map_append, List.sum_append, List.map_cons,
      List.sum_cons, hcredits, hsum, Receipt.inFlight]
    omega
  have hle := hfunded.locked_le
  simp only [World.answered] at hkept hflight ⊢
  omega

end Delivered

/-! ## A deposit that overflowed -/

section Wedged

variable {sha256 : List UInt8 → Hash} {env : Env} {s t : LockupContract} {method : Method}
  {p : Option Promise} {callback : Callback} {result : PromiseResult} {w w' : World} {l : Label}

/-- A callback that is not of the pool leaves a selected one. -/
theorem busy_resumed {information : StakingInformation}
    (hsome : s.stakingInformation = some information) (hpool : callback.isPool = false)
    (hresume : Resumed s callback result t p) :
    t.stakingInformation = s.stakingInformation := by
  cases hresume with
  | selected hnone hvesting => cases hnone.symm.trans hsome
  | settled hsome' hdeposit => cases (isPool_of_settled hdeposit).1.symm.trans hpool
  | moved stage => cases (onMove_isPool stage _).symm.trans hpool
  | notMoved stage => cases (onMove_isPool stage _).symm.trans hpool
  | moving stage => rfl
  | nothingToMove stage => cases (onQuery_isPool stage).symm.trans hpool
  | voted hdisabled => rfl
  | notVoted => rfl
  | paid hmax hvesting => rfl
  | notPaid hvesting => rfl
  | _ => cases hpool

/-- Only a withdrawal takes tokens from the pool. -/
theorem Wedged.held_delivered {i : ℕ} {outcome : Outcome} (h : Wedged w) (hcustody : Custody w)
    (hhonest : honest w (.deliver i outcome) = true)
    (hmoves : Moves sha256 w (.deliver i outcome) w') : w.heldAtPool ≤ w'.heldAtPool := by
  cases hmoves with
  | @answered _ _ receiverId method deposit callback rest htake hself =>
    refine le_heldAtPool_update _ ?_
    have hsent := hcustody.sent _ ((mem_of_takeAt htake).mpr (.inl rfl))
    have hpool := h.none_pending callback ((mem_filterMap_of_takeAt htake).mpr (.inl rfl))
    rcases honest_answered htake hhonest with ⟨-, hle, -⟩ |
      ⟨value, -, ⟨amount, hmethod, -⟩ | ⟨-, hle⟩⟩
    · exact hle
    · cases callback <;> first | exact absurd hmethod (hsent.2 amount) | cases hpool
    · exact (Nat.le_add_right _ _).trans hle
  | transferred htake hsuccess => exact le_rfl
  | bounced htake hfailure => exact le_rfl
  | keyAdded htake => exact le_rfl
  | credited htake hreceipt => exact le_rfl

/-- Nothing takes tokens from a pool of which nothing is awaited. -/
theorem Wedged.step (h : Wedged w) (hcustody : Custody w) (hhonest : honest w l = true)
    (hstep : (system sha256).step w l = .ok w') : Wedged w' := by
  obtain ⟨information, hsome, hbusy⟩ := h.busy
  have hmoves := moves_of_step hstep
  cases l with
  | call env method =>
    cases hmoves with
    | called hhost hcall htokens =>
      obtain ⟨hsame, hnew⟩ := busy_called hsome hbusy hcall
      refine ⟨⟨information, hsame.trans hsome, hbusy⟩, ?_, ?_⟩
      · intro c hc
        rcases List.mem_append.mp ((pending_issued _ _ _ _).mem_iff.mp hc) with hc | hc
        · exact hnew c (Option.mem_toList.mp hc)
        · exact h.none_pending c hc
      · rw [heldAtPool_issued (by simp only [getStakingPoolAccountId, hsame])]
        exact h.lt_held
  | deliver i outcome =>
    obtain ⟨hcontract, -, hperm⟩ := pending_of_deliver hmoves
    refine ⟨⟨information, by rw [hcontract]; exact hsome, hbusy⟩, ?_, ?_⟩
    · intro c hc
      exact h.none_pending c (hperm.mem_iff.mpr hc)
    · exact h.lt_held.trans_le (h.held_delivered hcustody hhonest hmoves)
  | resume i env =>
    cases hmoves with
    | @resumed _ _ callback _ _ _ rest htake hhost hresume htokens =>
      -- No callback that is left is about the pool, so that none of them ends the wait.
      have hunanswered := hcustody.unanswered _ ((mem_of_takeAt htake).mpr (.inl rfl))
      obtain ⟨-, rfl⟩ := resumed_unanswered hresume hunanswered
      have hpool := h.none_pending callback ((mem_filterMap_of_takeAt htake).mpr (.inl rfl))
      have hsame := busy_resumed hsome hpool hresume
      refine ⟨⟨information, hsame.trans hsome, hbusy⟩, ?_, ?_⟩
      · intro c hc
        refine h.none_pending c ((mem_filterMap_of_takeAt htake).mpr (.inr ?_))
        simpa using (pending_issued _ _ _ _).mem_iff.mp hc
      · rw [heldAtPool_issued (by simp only [getStakingPoolAccountId, hsame])]
        exact h.lt_held
    | panicked htake hhost hself hpanic =>
      refine ⟨h.busy, ?_, h.lt_held⟩
      intro c hc
      exact h.none_pending c ((mem_filterMap_of_takeAt htake).mpr (.inr hc))
  | receive amount =>
    cases hmoves
    exact ⟨h.busy, h.none_pending, h.lt_held⟩
  | hold accountId held =>
    cases hmoves
    refine ⟨h.busy, h.none_pending, h.lt_held.trans_le ?_⟩
    exact le_heldAtPool_update w.receipts (by simpa [honest] using hhonest)

end Wedged

/-! ## Runs -/

section Runs

variable {sha256 : List UInt8 → Hash} {w w' : World} {l : Label}

theorem Custody.funded_delivered {i : ℕ} {outcome : Outcome} (h : Custody w) (hfunded : Funded w)
    (hhonest : honest w (.deliver i outcome) = true)
    (hmoves : Moves sha256 w (.deliver i outcome) w') : Funded w' := by
  cases hmoves with
  | answered htake hself => exact h.funded_answered hfunded htake hhonest
  | @transferred _ _ receiverId amount callback _ htake hsuccess =>
    have hsent := h.sent _ ((mem_of_takeAt htake).mpr (.inl rfl))
    have hbalance : w.balance ≤ if receiverId = w.accountId then w.balance + amount
        else w.balance := by
      split <;> omega
    cases callback with
    | none =>
      refine hfunded.moved _ _ htake ⟨rfl, rfl⟩ (by rintro r ⟨⟩) ?_
      exact hbalance
    | some callback =>
      -- The tokens of a payout stay in flight until its callback books them.
      cases hsent
      cases hresult : outcome.result with
      | failed => simp [hresult, PromiseResult.isSuccess] at hsuccess
      | successful value =>
        refine hfunded.moved _ _ htake ⟨rfl, rfl⟩ ?_ ?_
        · intro r hr
          cases List.mem_singleton.mp hr
          exact ⟨rfl, rfl⟩
        · exact Nat.add_le_add_right hbalance _
  | @bounced _ _ receiverId amount callback _ htake hfailure =>
    have hsent := h.sent _ ((mem_of_takeAt htake).mpr (.inl rfl))
    cases callback with
    | none =>
      refine hfunded.moved _ _ htake ⟨rfl, rfl⟩ ?_ ?_
      · intro r hr
        cases List.mem_singleton.mp hr
        exact ⟨rfl, rfl⟩
      · exact le_rfl
    | some callback =>
      cases hsent
      refine hfunded.moved _ _ htake ⟨rfl, rfl⟩ ?_ ?_
      · intro r hr
        rw [hfailure] at hr
        rcases List.mem_cons.mp hr with rfl | hr
        · exact ⟨rfl, rfl⟩
        · cases List.mem_singleton.mp hr
          exact ⟨rfl, rfl⟩
      · rw [hfailure]
        exact le_rfl
  | @keyAdded _ _ _ _ rest htake =>
    have hmoved := hfunded.moved w.balance [] htake ⟨rfl, rfl⟩
      (by rintro r ⟨⟩) le_rfl
    simpa using hmoved
  | @credited _ _ receipt amount rest htake hreceipt =>
    have hr : (receipt.toAdd = 0 ∧ receipt.toTake = 0) ∧ receipt.inFlight ≤ amount := by
      rcases hreceipt with rfl | ⟨callback, rfl⟩
      · exact ⟨⟨rfl, rfl⟩, le_rfl⟩
      · cases callback with
        | none => exact ⟨⟨rfl, rfl⟩, Nat.zero_le _⟩
        | some callback => exact ⟨⟨rfl, rfl⟩, le_rfl⟩
    have hmoved := hfunded.moved (w.balance + amount) [] htake hr.1
      (by rintro r ⟨⟩) (Nat.add_le_add_left hr.2 _)
    simpa using hmoved

theorem Custody.tokens_step (h : Custody w) (hfunded : Funded w) (hhonest : honest w l = true)
    (hstep : (system sha256).step w l = .ok w') : Funded w' ∨ Wedged w' := by
  have hmoves := moves_of_step hstep
  have hle := hfunded.locked_le
  have hclaim := hfunded.claimable_le
  cases l with
  | call env method =>
    cases hmoves with
    | called hhost hcall htokens => exact .inl (h.funded_called hfunded hhost hcall htokens)
  | deliver i outcome => exact .inl (h.funded_delivered hfunded hhonest hmoves)
  | resume i env =>
    cases hmoves with
    | resumed htake hhost hresume htokens =>
      exact .inl (h.funded_resumed hfunded hhost htake hresume)
    | panicked htake hhost hself hpanic => exact h.panicked hfunded hhost htake hself hpanic
  | receive amount =>
    cases hmoves
    refine .inl ⟨?_, hclaim⟩
    exact hle.trans (Nat.add_le_add_right (Nat.add_le_add_right (Nat.le_add_right _ _) _) _)
  | hold accountId held =>
    cases hmoves
    refine .inl ⟨hle, hclaim.trans ?_⟩
    exact le_heldAtPool_update w.receipts (by simpa [honest] using hhonest)

/-- Every step of honest accounts keeps custody. -/
theorem custody_step (h : Custody w) (hhonest : honest w l = true)
    (hstep : (system sha256).step w l = .ok w') : Custody w' := by
  refine ⟨singleFlight_step h.flight hstep, unanswered_step h.unanswered hstep,
    sent_step h.sent h.flight h.unanswered hstep, wellVested_step h.flight h.vested hstep, ?_⟩
  rcases h.tokens with hfunded | hwedged
  · exact h.tokens_step hfunded hhonest hstep
  · exact .inr (hwedged.step h hhonest hstep)

/-- A new lockup has all its tokens. -/
theorem custody_new {env : Env} {vesting : Option VestingScheduleOrHash} {s : LockupContract}
    (h : s.IsNew env vesting) (hvesting : ∀ v, vesting = some v →
      ∃ schedule, v = .vestingSchedule schedule ∧ schedule.assertValid = .ok ())
    (held : AccountId → ℕ) : Custody (World.initial env s held) := by
  have hvested := wellVested_new h hvesting
  obtain ⟨hnone, -, hamount, -⟩ := new_cases h
  have hknown : s.getKnownDepositedBalance = 0 := by
    simp [getKnownDepositedBalance, hnone]
  have hclaimable : (World.initial env s held).claimable = 0 := by
    simp [World.claimable, World.initial, hknown]
  refine ⟨singleFlight_new h, by rintro r ⟨⟩, by rintro r ⟨⟩, hvested, .inl ⟨?_, ?_⟩⟩
  · have hle := lockedAt_le hvested env.blockTimestamp
    have hnot : s.notWithdrawn ≤ env.accountBalance := by
      unfold notWithdrawn
      omega
    simp only [World.initial] at hclaimable ⊢
    omega
  · rw [hclaimable]
    exact Nat.zero_le _

end Runs

/-- The tokens on the account, at the selected pool and in flight cover the locked amount, now and
later, and a transfer leaves what is locked. -/
structure Secured (w : World) : Prop where
  locked_le : ∀ env : Env, w.now ≤ env.blockTimestamp →
    ∃ locked, w.contract.getLockedAmount env = .ok locked ∧
      locked ≤ w.balance + w.heldAtPool + w.inFlight
  transfer_le : ∀ env amount receiver t p, w.Hosts env →
    w.contract.transfer env amount receiver = .ok (t, p) →
    ∃ locked, w.contract.getLockedAmount env = .ok locked ∧
      amount + locked ≤ w.balance + w.heldAtPool

theorem Custody.secured {w : World} (h : Custody w) : Secured w := by
  refine ⟨?_, ?_⟩
  · intro env htime
    refine ⟨_, getLockedAmount_eq h.vested, ?_⟩
    rcases h.tokens with hfunded | hwedged
    · have hmelts := lockedAt_antitone h.vested htime
      have hle := hfunded.locked_le
      have hclaim := hfunded.claimable_le
      omega
    · -- The pool alone holds more than was ever locked.
      have hle := lockedAt_le h.vested env.blockTimestamp
      have hmax := h.vested.lockup_le
      have hheld := hwedged.lt_held
      unfold notWithdrawn at hle
      omega
  · intro env amount receiver t p hhost htransfer
    have hcall : Called id env w.contract (.transfer amount receiver) t (some p) :=
      called_transfer htransfer
    cases hcall with
    | pool hsome hidle hvesting hp hbalance => cases hp
    | transfer hidle hlocked hpos howners hbalance =>
      refine ⟨_, hlocked, ?_⟩
      have hknown := h.claimable_of_idle hidle
      have hsaturated := saturatingAdd_le_add env.accountBalance w.contract.getKnownDepositedBalance
      rcases h.tokens with hfunded | hwedged
      · have hclaim := hfunded.claimable_le
        rw [hhost.2.1] at hsaturated howners
        omega
      · obtain ⟨information, hsome, hbusy⟩ := hwedged.busy
        cases hbusy.symm.trans (hidle information hsome)

/-- **Custody.** With no vesting or a valid public schedule, in every run with honest accounts, the
tokens cover the locked amount and no transfer takes what is locked. -/
theorem locked_le_held (sha256 : List UInt8 → Hash) (env : Env)
    (vesting : Option VestingScheduleOrHash) (s : LockupContract) (hnew : s.IsNew env vesting)
    (hvesting : ∀ v, vesting = some v →
      ∃ schedule, v = .vestingSchedule schedule ∧ schedule.assertValid = .ok ())
    (held : AccountId → ℕ) (ls : List Label)
    (hhonest : ∀ x ∈ (system sha256).steps (World.initial env s held) ls,
      honest x.before x.label = true) :
    Secured ((system sha256).run (World.initial env s held) ls) :=
  (Machine.run_invariant (I := Custody) (G := fun w l => honest w l = true)
    (fun _ _ _ h hl hstep => custody_step h hl hstep) hhonest
    (custody_new hnew hvesting held)).secured

theorem locked_le_held_sampleDeficit : Secured sampleDeficit :=
  locked_le_held id _ _ sampleVesting isNew_sampleVesting
    (by
      rintro v ⟨⟩
      exact ⟨_, rfl, by decide⟩)
    (fun _ => 0) (sampleSelect ++ sampleDeposit ++ sampleTerminate) (by decide)

end UncContracts.Lockup
