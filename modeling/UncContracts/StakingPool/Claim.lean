import UncContracts.StakingPool.Balance
import UncContracts.StakingPool.Isolation
import UncContracts.StakingPool.RoundTrip
import UncContracts.StakingPool.Solvency
import UncContracts.StakingPool.StakeRequest
import UncContracts.StakingPool.UnstakeDelay

/-!
# What a delegator is owed

A delegator may claim its unstaked balance and the worth of its shares. Its own calls leave it with
what it had and what it deposits, less what the pool transfers to it, and the calls of others leave
it with at least what it had. So whatever the delegators do in whatever order, and whatever fee the
owner sets, nobody loses tokens as long as every unstake leaves a share.

## Main definitions

* `claim`: the unstaked balance of a delegator and the worth of its shares
* `Gentle`: a call that saturates nothing and leaves a share
* `depositedBy`, `paidTo`: what a step takes from a delegator, and what it transfers to it

## Main results

* `claim_of_call`: the account of a caller
* `claim_never_lost`: from any state of a run on, a delegator may claim what it could before and
  what it deposited, less what it was paid
-/

namespace UncContracts.StakingPool

open Foundation StakingContract

/-- The unstaked balance of a delegator and the worth of its shares. -/
def claim (s : StakingContract) (q : AccountId) : ℕ :=
  (s.internalGetAccount q).unstaked + s.sharePool.worth (s.internalGetAccount q).stakeShares

/-- A call that saturates nothing and leaves a share. -/
def Gentle (s : StakingContract) (c : Call) : Prop := NoSaturation s c ∧ LeavesShare s c

instance (s : StakingContract) (c : Call) : Decidable (Gentle s c) :=
  inferInstanceAs (Decidable (_ ∧ _))

/-! ## The promises of a call -/

section Promises

variable {s t : StakingContract} {c : Call} {promises : List Promise}

/-- A method that is not payable takes no deposit. -/
theorem attachedDeposit_of_call (h : s.call c = .ok (t, promises)) :
    c.method.payable ∨ c.env.attachedDeposit = 0 := by
  obtain ⟨_, hdeposit, -⟩ := bind_eq_ok.mp h
  exact ensure_eq_ok.mp hdeposit

theorem step_of_call (h : s.call c = .ok (t, promises)) : pool.step s c = .ok t := by
  simp only [pool, h, ok_bind]
  rfl

theorem payments_of_internalWithdraw {env : Env} {amount : ℕ}
    (h : s.internalWithdraw env amount = .ok (t, promises)) :
    payments promises = [(env.predecessorAccountId, amount)] := by
  simp only [internalWithdraw, bind_eq_ok, ensure_eq_ok, pure_eq_ok] at h
  obtain ⟨-, -, -, -, -, -, h⟩ := h
  obtain ⟨-, rfl⟩ := Prod.mk.inj h
  rfl

/-- A withdrawal pays its amount. -/
theorem payments_of_withdraw {amount : ℕ} (hmethod : c.method = .withdraw amount)
    (h : s.call c = .ok (t, promises)) :
    payments promises = [(c.env.predecessorAccountId, amount)] := by
  obtain ⟨env, method⟩ := c
  subst hmethod
  obtain ⟨-, -, h⟩ := bind_eq_ok.mp h
  obtain ⟨⟨u, b⟩, -, h⟩ := bind_eq_ok.mp h
  obtain ⟨⟨v, ps⟩, hv, h⟩ := bind_eq_ok.mp h
  obtain ⟨-, rfl⟩ := Prod.mk.inj (pure_eq_ok.mp h)
  rw [payments_append, payments_restake_if, List.append_nil]
  exact payments_of_internalWithdraw hv

/-- Only withdrawals pay. -/
theorem payments_eq_nil (hmethod : c.method.withdraws = false) (h : s.call c = .ok (t, promises)) :
    payments promises = [] := by
  obtain ⟨env, method⟩ := c
  obtain ⟨-, -, h⟩ := bind_eq_ok.mp h
  cases method with
  | withdrawAll => cases hmethod
  | withdraw amount => cases hmethod
  | ping | deposit =>
    obtain ⟨⟨_, b⟩, -, h⟩ := bind_eq_ok.mp h
    obtain ⟨-, rfl⟩ := Prod.mk.inj (pure_eq_ok.mp h)
    exact payments_restake_if _ b
  | depositAndStake | stakeAll | stake _ | unstake _ =>
    obtain ⟨⟨_, _⟩, -, h⟩ := bind_eq_ok.mp h
    obtain ⟨_, -, h⟩ := bind_eq_ok.mp h
    obtain ⟨-, rfl⟩ := Prod.mk.inj (pure_eq_ok.mp h)
    exact payments_internalRestake _
  | unstakeAll =>
    obtain ⟨⟨_, _⟩, -, h⟩ := bind_eq_ok.mp h
    obtain ⟨_, -, h⟩ := bind_eq_ok.mp h
    obtain ⟨_, -, h⟩ := bind_eq_ok.mp h
    obtain ⟨-, rfl⟩ := Prod.mk.inj (pure_eq_ok.mp h)
    exact payments_internalRestake _
  | onStakeAction _ =>
    obtain ⟨-, -, h⟩ := bind_eq_ok.mp h
    obtain ⟨-, -, h⟩ := bind_eq_ok.mp h
    obtain ⟨-, rfl⟩ := Prod.mk.inj (pure_eq_ok.mp h)
    split <;> rfl
  | updateStakingKey _ =>
    obtain ⟨-, -, h⟩ := bind_eq_ok.mp h
    obtain ⟨⟨_, _⟩, -, h⟩ := bind_eq_ok.mp h
    obtain ⟨-, rfl⟩ := Prod.mk.inj (pure_eq_ok.mp h)
    exact payments_internalRestake _
  | updateRewardFeeFraction _ =>
    obtain ⟨-, -, h⟩ := bind_eq_ok.mp h
    obtain ⟨-, -, h⟩ := bind_eq_ok.mp h
    obtain ⟨⟨_, b⟩, -, h⟩ := bind_eq_ok.mp h
    obtain ⟨-, rfl⟩ := Prod.mk.inj (pure_eq_ok.mp h)
    exact payments_restake_if _ b
  | vote _ _ =>
    obtain ⟨-, -, h⟩ := bind_eq_ok.mp h
    obtain ⟨-, -, h⟩ := bind_eq_ok.mp h
    obtain ⟨-, rfl⟩ := Prod.mk.inj (pure_eq_ok.mp h)
    rfl
  | pauseStaking =>
    obtain ⟨-, -, h⟩ := bind_eq_ok.mp h
    obtain ⟨-, -, h⟩ := bind_eq_ok.mp h
    obtain ⟨⟨_, _⟩, -, h⟩ := bind_eq_ok.mp h
    obtain ⟨-, rfl⟩ := Prod.mk.inj (pure_eq_ok.mp h)
    rfl
  | resumeStaking =>
    obtain ⟨-, -, h⟩ := bind_eq_ok.mp h
    obtain ⟨-, -, h⟩ := bind_eq_ok.mp h
    obtain ⟨⟨_, _⟩, -, h⟩ := bind_eq_ok.mp h
    obtain ⟨-, rfl⟩ := Prod.mk.inj (pure_eq_ok.mp h)
    exact payments_internalRestake _

/-- A call pays nobody but its caller. -/
theorem receiver_of_payments (h : s.call c = .ok (t, promises)) :
    ∀ payment ∈ payments promises, payment.1 = c.env.predecessorAccountId := by
  cases called_of_call h with
  | answered succeeded hmethod => split <;> simp [payments, Promise.payment]
  | voted => simp [payments, Promise.payment]
  | paused => simp [payments, Promise.payment]
  | withdrew amount promises hping hstaking hunstaking hwithdraw =>
    rw [payments_append, payments_restake_if, List.append_nil,
      payments_of_internalWithdraw hwithdraw]
    simp
  | _ => simp

end Promises

/-! ## The calls of others -/

section Others

variable {s t u : StakingContract} {c : Call} {q : AccountId}

/-- A delegator that is left alone may claim no less. -/
theorem Isolated.claim_le (h : Isolated s t q) : claim s q ≤ claim t q := by
  unfold claim
  rw [h.unstaked]
  rcases Nat.eq_zero_or_pos s.totalStakeShares with hnone | hpos
  · have hzero : s.sharePool.worth (s.internalGetAccount q).stakeShares = 0 := by
      simp [SharePool.worth, hnone]
    omega
  · exact Nat.add_le_add_left (h.worth hpos).2 _

/-- The call of another one leaves a delegator its claim. -/
theorem claim_of_other (hs : Sound s) (hgentle : Gentle s c) (h : pool.step s c = .ok t)
    (hq : q ≠ c.env.predecessorAccountId) : claim s q ≤ claim t q :=
  ((isolated_iff hs hgentle.1.staked h hq).mpr hgentle.2).claim_le

end Others

/-! ## The calls of a delegator -/

section Own

variable {s t u : StakingContract} {c : Call} {p : AccountId} {amount : ℕ} {promises : List Promise}

/-- A deposit is credited, where the method takes one. -/
theorem claim_credited (hdeposit : c.method.payable ∨ c.env.attachedDeposit = 0)
    (hfits : c.method.payable → (s.internalGetAccount c.env.predecessorAccountId).unstaked +
      c.env.attachedDeposit ≤ u128Max) :
    claim (credited s c) c.env.predecessorAccountId =
      claim s c.env.predecessorAccountId + c.env.attachedDeposit := by
  unfold credited
  split
  · rename_i hpayable
    obtain ⟨hup, -, hpool⟩ := internalDeposit_spec s c.env
    rw [claim, hup.own _ counts_unstaked, hup.own _ counts_stakeShares, hpool, claim]
    dsimp only
    rw [saturatingAdd_of_le (hfits hpayable)]
    omega
  · rename_i hpayable
    rw [hdeposit.resolve_left hpayable, Nat.add_zero]

/-- A withdrawal pays what it takes off. -/
theorem claim_of_internalWithdraw {env : Env}
    (h : s.internalWithdraw env amount = .ok (t, promises)) :
    claim t env.predecessorAccountId + amount = claim s env.predecessorAccountId := by
  obtain ⟨-, hle, hup, -, hpool⟩ := internalWithdraw_spec h
  rw [claim, hup.own _ counts_unstaked, hup.own _ counts_stakeShares, hpool, claim]
  dsimp only
  omega

/-- The shares of a stake are worth what they are charged. -/
theorem Staked.claim_le (h : Staked s t p amount) (hfits : StakeFits s p amount) :
    claim s p ≤ claim t p := by
  have hcharged := h.charged
  have hworth := h.worth_le hfits
  unfold claim
  rw [h.updates.own _ counts_unstaked]
  dsimp only
  omega

/-- An unstake credits its worth, and the shares that are left are worth no less. -/
theorem Unstaked.claim_le (h : Unstaked s t p amount) (hs : Sound s)
    (hfits : (s.internalGetAccount p).unstaked +
      s.sharePool.worthUp (s.sharePool.sharesForUp amount) ≤ u128Max)
    (hleft : 0 < t.totalStakeShares) : claim s p ≤ claim t p := by
  obtain ⟨epoch, hup⟩ := h.updates
  have hshares : (s.internalGetAccount p).stakeShares ≤ (t.internalGetAccount p).stakeShares := by
    rw [hup.own _ counts_stakeShares]
    exact le_saturatingAdd _ (hs.account p)
  have hworth := (SharePool.worth_le_of_priceLE h.priceLE h.shares_pos hleft
    (s.internalGetAccount p).stakeShares).trans (SharePool.worth_mono _ hshares)
  unfold claim
  rw [hup.own _ counts_unstaked]
  dsimp only
  rw [saturatingAdd_of_le hfits]
  omega

/-- What the caller may claim after a ping and its deposit. -/
theorem claim_credited_of_ping (hs : Sound s) (hgentle : Gentle s c) (h : s.call c = .ok (t, promises))
    {b : Bool} (hu : s.internalPing c.env = .ok (u, b)) :
    claim s c.env.predecessorAccountId + c.env.attachedDeposit ≤
      claim (credited u c) c.env.predecessorAccountId := by
  rw [claim_credited (attachedDeposit_of_call h) fun hpayable =>
    ((hgentle.1.accounts.2.apply hu).1 hpayable).2]
  exact Nat.add_le_add_right (Isolated.internalPing hs hu hgentle.1.staked.1).claim_le _

/-- A method that takes no deposit credits none. -/
theorem credited_of_not_payable (u : StakingContract) (h : c.method.payable = false) :
    credited u c = u := by
  simp [credited, h]

/-- A stake after the deposit fits. -/
theorem Gentle.stakeFits (hgentle : Gentle s c) {b : Bool} (hu : s.internalPing c.env = .ok (u, b))
    (hstaking : staking u c = some amount) :
    StakeFits (credited u c) c.env.predecessorAccountId amount := by
  have hkept : ((credited u c).internalGetAccount c.env.predecessorAccountId).stakeShares =
      (u.internalGetAccount c.env.predecessorAccountId).stakeShares := by
    unfold credited
    split
    · rw [(internalDeposit_spec u c.env).1.own _ counts_stakeShares]
    · rfl
  refine ⟨?_, ?_, ?_⟩
  · rw [credited_totalStakedBalance, credited_sharePool]
    exact hgentle.1.staked.2.apply hu amount hstaking
  · rw [credited_totalStakeShares, credited_sharePool]
    exact hgentle.1.shares.2.apply hu amount hstaking
  · rw [hkept, credited_sharePool]
    exact (hgentle.1.accounts.2.apply hu).2.1 amount hstaking

/-- What a payable call does: it credits its deposit, and may stake it. -/
theorem payable_of_call (hpayable : c.method.payable) (h : s.call c = .ok (t, promises)) :
    ∃ u b, s.internalPing c.env = .ok (u, b) ∧ (t = credited u c ∨
      ∃ amount, staking u c = some amount ∧ (credited u c).internalStake c.env amount = .ok t) := by
  obtain ⟨env, method⟩ := c
  obtain ⟨-, -, h⟩ := bind_eq_ok.mp h
  cases method with
  | deposit =>
    obtain ⟨⟨u, b⟩, hu, h⟩ := bind_eq_ok.mp h
    obtain ⟨rfl, -⟩ := Prod.mk.inj (pure_eq_ok.mp h)
    exact ⟨u, b, hu, .inl rfl⟩
  | depositAndStake =>
    obtain ⟨⟨u, b⟩, hu, h⟩ := bind_eq_ok.mp h
    obtain ⟨v, hv, h⟩ := bind_eq_ok.mp h
    obtain ⟨rfl, -⟩ := Prod.mk.inj (pure_eq_ok.mp h)
    exact ⟨u, b, hu, .inr ⟨_, rfl, hv⟩⟩
  | _ => cases hpayable

/-- **The account of a caller.** After a call that saturates nothing and leaves a share, the caller
may claim what it could before and what it deposited, less what the call pays. -/
theorem claim_of_call (hs : Sound s) (hgentle : Gentle s c) (h : s.call c = .ok (t, promises)) :
    claim s c.env.predecessorAccountId + c.env.attachedDeposit ≤
      claim t c.env.predecessorAccountId + paid (payments promises) := by
  by_cases hpayable : c.method.payable
  · obtain ⟨u, b, hu, rfl | ⟨amount, hstaking, hstake⟩⟩ := payable_of_call hpayable h
    · exact (claim_credited_of_ping hs hgentle h hu).trans (Nat.le_add_right _ _)
    · have hclaim := (internalStake_spec hstake).claim_le (hgentle.stakeFits hu hstaking)
      exact ((claim_credited_of_ping hs hgentle h hu).trans hclaim).trans (Nat.le_add_right _ _)
  have hnone := (attachedDeposit_of_call h).resolve_left hpayable
  have hping : ∀ {u : StakingContract} {b : Bool}, s.internalPing c.env = .ok (u, b) →
      claim s c.env.predecessorAccountId ≤ claim u c.env.predecessorAccountId :=
    fun hu => (Isolated.internalPing hs hu hgentle.1.staked.1).claim_le
  rw [hnone, Nat.add_zero]
  cases called_of_call h with
  | answered => exact Nat.le_add_right _ _
  | voted => exact Nat.le_add_right _ _
  | pinged _ hu => exact (hping hu).trans (Nat.le_add_right _ _)
  | restaked _ _ hu => exact (hping hu).trans (Nat.le_add_right _ _)
  | paused hu => exact (hping hu).trans (Nat.le_add_right _ _)
  | deposited _ hmethod => exact absurd hmethod hpayable
  | withdrew amount promises hu _ _ hwithdraw =>
    have hclaim := claim_of_internalWithdraw hwithdraw
    rw [payments_append, payments_restake_if, List.append_nil, paid_of_internalWithdraw hwithdraw]
    exact (hping hu).trans hclaim.ge
  | staked amount hu hstaking _ hstake =>
    have hclaim := (internalStake_spec hstake).claim_le (hgentle.stakeFits hu hstaking)
    rw [credited_of_not_payable _ (by simpa using hpayable)] at hclaim
    exact ((hping hu).trans hclaim).trans (Nat.le_add_right _ _)
  | @unstaked u _ _ amount hu _ hunstaking hunstake =>
    have hspec := innerUnstake_spec hunstake
    obtain ⟨-, hfits⟩ := (hgentle.1.accounts.2.apply hu).2.2 amount hunstaking
    have hleft := hspec.shares_pos_iff.mpr (hgentle.2.apply hu amount hunstaking)
    exact ((hping hu).trans (hspec.claim_le (hs.internalPing hu) hfits hleft)).trans
      (Nat.le_add_right _ _)

end Own

/-! ## Runs -/

/-- What a step takes from a delegator. -/
def depositedBy (q : AccountId) (x : Step StakingContract Call) : ℕ :=
  if x.label.env.predecessorAccountId = q then x.label.env.attachedDeposit else 0

/-- What a step transfers to a delegator. -/
def paidTo (q : AccountId) (x : Step StakingContract Call) : ℕ :=
  paid ((payments (issued x)).filter fun payment => payment.1 = q)

section Runs

variable {s t : StakingContract} {c : Call} {q : AccountId}

/-- A step of anyone leaves a delegator what it had, with its deposit and less its payment. -/
theorem claim_of_step (hs : Sound s) (hgentle : Gentle s c) (h : pool.step s c = .ok t) :
    claim s q + depositedBy q ⟨s, c, t⟩ ≤ claim t q + paidTo q ⟨s, c, t⟩ := by
  by_cases hq : c.env.predecessorAccountId = q
  · obtain ⟨⟨t', promises⟩, hcall, ht⟩ := bind_eq_ok.mp h
    obtain rfl := pure_eq_ok.mp ht
    have hall : (payments promises).filter (fun payment => payment.1 = q) = payments promises :=
      List.filter_eq_self.mpr fun payment hmem => by simp [receiver_of_payments hcall payment hmem, hq]
    have hclaim := claim_of_call hs hgentle hcall
    rw [paidTo, issued_of_call hcall, hall, depositedBy, if_pos hq]
    rwa [hq] at hclaim
  · rw [depositedBy, if_neg hq, Nat.add_zero]
    exact (claim_of_other hs hgentle h (Ne.symm hq)).trans (Nat.le_add_right _ _)

end Runs

/-- **No delegator loses tokens.** From any state of a run on, as long as no call saturates and every
unstake leaves a share, a delegator may claim what it could before and what it deposited, less what
it was paid, whatever the others, the owner and the rewards do. -/
theorem claim_never_lost (s : StakingContract) (h : Deployed s) (before calls : List Call)
    (hgentle : ∀ x ∈ pool.steps (pool.run s before) calls, Gentle x.before x.label)
    (q : AccountId) :
    claim (pool.run s before) q +
        ((pool.steps (pool.run s before) calls).map (depositedBy q)).sum ≤
      claim (pool.run s (before ++ calls)) q +
        ((pool.steps (pool.run s before) calls).map (paidTo q)).sum := by
  rw [Machine.run_append]
  refine Machine.le_potential (P := fun t => claim t q) ?_
  intro x hx
  obtain ⟨pre, post, -, hbefore, hstep⟩ := Machine.mem_steps_iff.mp hx
  have hsound : Sound x.before := by
    rw [hbefore, ← Machine.run_append]
    exact sound_run h _
  exact claim_of_step hsound (hgentle x hx) hstep

/-- Alice calls the small pool four epochs later, after a reward of ten tokens. -/
def rewardedEnv : Env :=
  { smallEnv "alice" 0 with
    epochHeight := 11
    accountBalance := STAKE_SHARE_PRICE_GUARANTEE_FUND + 40
    accountBalance_le := by decide }

/-- Bob and Alice stake, Alice unstakes, and after a reward she withdraws. -/
def sampleDelegation : List Call := doubledShares ++ [⟨rewardedEnv, .withdraw 10⟩]

theorem claim_never_lost_sampleDelegation :
    claim (pool.run smallPool []) "alice" +
        ((pool.steps smallPool sampleDelegation).map (depositedBy "alice")).sum ≤
      claim (pool.run smallPool sampleDelegation) "alice" +
        ((pool.steps smallPool sampleDelegation).map (paidTo "alice")).sum :=
  claim_never_lost smallPool deployed_smallPool [] sampleDelegation (by decide) "alice"

end UncContracts.StakingPool
