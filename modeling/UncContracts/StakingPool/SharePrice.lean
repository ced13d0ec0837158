import UncContracts.StakingPool.Ledger

/-!
# The price of a share

Stakes are charged rounded down and added rounded up, unstakes the other way round, and a reward
reaches the shares before the owner buys new ones. So the price of a share never decreases, and
since the contract starts at price one it is always at least one.

## Main definitions

* `AfterPing`: a property of the ledger once the reward is distributed
* `StakedFits`: the additions to the staked balance do not saturate
* `Deployed`: the states the contract is initialized in
* `Sound`: the bounds that hold in every run

## Main results

* `call_priceLE`: no call lowers the price
* `sound_run`: the bounds hold in every run, whatever saturates
-/

namespace UncContracts.StakingPool

open Foundation StakingContract

/-! ## Runs -/

/-- The states the contract is initialized in. -/
def Deployed (s : StakingContract) : Prop :=
  ∃ env stateExists ownerId stakePublicKey rewardFeeFraction promises,
    StakingContract.new env stateExists ownerId stakePublicKey rewardFeeFraction =
      .ok (s, promises)

/-- The contract starts with one share for every staked token, and none of them is anybody's. -/
structure Fresh (s : StakingContract) : Prop where
  fee : s.rewardFeeFraction.Valid
  accounts : s.accounts = ∅
  shares : s.totalStakeShares = s.totalStakedBalance
  staked : s.totalStakedBalance = s.lastTotalBalance - STAKE_SHARE_PRICE_GUARANTEE_FUND
  balance : s.lastTotalBalance ≤ u128Max

theorem Deployed.fresh {s : StakingContract} (h : Deployed s) : Fresh s := by
  obtain ⟨env, stateExists, ownerId, key, fee, promises, h⟩ := h
  simp only [StakingContract.new, bind_eq_ok, ensure_eq_ok, pure_eq_ok] at h
  obtain ⟨-, -, _, hfee, -, -, -, -, h⟩ := h
  obtain ⟨rfl, -⟩ := Prod.mk.inj h
  exact ⟨RewardFeeFraction.assertValid_eq_ok.mp hfee, rfl, rfl, rfl, env.accountBalance_le⟩

/-- `P` holds of the contract after the ping of a call, if the ping succeeds. -/
def AfterPing (s : StakingContract) (c : Call) (P : StakingContract → Prop) : Prop :=
  match s.internalPing c.env with
  | .ok (u, _) => P u
  | .error _ => True

theorem AfterPing.apply {s u : StakingContract} {c : Call} {b : Bool}
    {P : StakingContract → Prop} (h : AfterPing s c P) (hu : s.internalPing c.env = .ok (u, b)) :
    P u := by
  simpa only [AfterPing, hu] using h

instance (s : StakingContract) (c : Call) (P : StakingContract → Prop) [DecidablePred P] :
    Decidable (AfterPing s c P) :=
  match h : s.internalPing c.env with
  | .ok (u, _) => decidable_of_iff (P u) (by simp only [AfterPing, h])
  | .error _ => isTrue (by simp only [AfterPing, h])

/-- The additions of a call to the total staked balance do not saturate. -/
def StakedFits (s : StakingContract) (c : Call) : Prop :=
  (s.lastEpochHeight ≠ c.env.epochHeight →
    s.totalStakedBalance + s.pendingReward c.env ≤ u128Max) ∧
  AfterPing s c fun u => ∀ amount ∈ staking u c,
    u.totalStakedBalance + u.sharePool.worthUp (u.sharePool.sharesFor amount) ≤ u128Max

instance (s : StakingContract) (c : Call) : Decidable (StakedFits s c) :=
  inferInstanceAs (Decidable (_ ∧ _))

@[simp] theorem credited_sharePool (s : StakingContract) (c : Call) :
    (credited s c).sharePool = s.sharePool := by
  unfold credited
  split
  · exact (internalDeposit_spec s c.env).2.2
  · rfl

@[simp] theorem credited_totalStakeShares (s : StakingContract) (c : Call) :
    (credited s c).totalStakeShares = s.totalStakeShares :=
  congrArg SharePool.shares (credited_sharePool s c)

@[simp] theorem credited_totalStakedBalance (s : StakingContract) (c : Call) :
    (credited s c).totalStakedBalance = s.totalStakedBalance :=
  congrArg SharePool.assets (credited_sharePool s c)

@[simp] theorem credited_rewardFeeFraction (s : StakingContract) (c : Call) :
    (credited s c).rewardFeeFraction = s.rewardFeeFraction := by
  unfold credited
  split
  · exact (internalDeposit_spec s c.env).1.rewardFeeFraction
  · rfl

/-! ## No step lowers the price -/

section Price

variable {s t u : StakingContract} {c : Call}

theorem ownersFee_le (hfee : s.rewardFeeFraction.Valid) (reward : ℕ) :
    s.ownersFee reward ≤ reward :=
  Nat.div_le_of_le_mul (Nat.mul_le_mul_right _ hfee.2)

/-- The reward raises the price, then the owner buys shares at the new one. -/
theorem Rewarded.priceLE_of_fits {reward : ℕ} (h : Rewarded s t reward)
    (hfit : s.totalStakedBalance + (reward - s.ownersFee reward) + s.ownersFee reward ≤ u128Max) :
    s.sharePool.PriceLE t.sharePool := by
  have hpool : s.rewardedPool reward =
      ⟨s.totalStakedBalance + (reward - s.ownersFee reward), s.totalStakeShares⟩ := by
    rw [rewardedPool, saturatingAdd_of_le (by omega)]
  have hstaked : t.totalStakedBalance = (s.rewardedPool reward).assets + s.ownersFee reward := by
    rw [h.totalStakedBalance, saturatingAdd_of_le]
    rw [hpool]
    exact hfit
  have hfirst : s.sharePool.PriceLE (s.rewardedPool reward) := by
    rw [hpool]
    exact SharePool.priceLE_reward s.sharePool _
  have hbuy := SharePool.priceLE_buy (s.rewardedPool reward) (s.ownersFee reward)
  show s.sharePool.PriceLE ⟨t.totalStakedBalance, t.totalStakeShares⟩
  rw [hstaked, h.totalStakeShares]
  refine SharePool.PriceLE.of_shares_le ?_ (mint_le_add _ _)
  rcases Nat.eq_zero_or_pos s.totalStakeShares with hzero | hpos
  · have hnone : s.feeShares reward = 0 := by
      simp [feeShares, SharePool.sharesFor, rewardedPool, hzero]
    simp [SharePool.PriceLE, hzero, hnone]
  · exact hfirst.trans hbuy hpos

theorem Rewarded.priceLE {reward : ℕ} (h : Rewarded s t reward) (hfee : s.rewardFeeFraction.Valid)
    (hfit : s.totalStakedBalance + reward ≤ u128Max) : s.sharePool.PriceLE t.sharePool := by
  have hle := ownersFee_le hfee reward
  apply h.priceLE_of_fits
  omega

theorem Staked.priceLE {p : AccountId} {amount : ℕ} (h : Staked s t p amount)
    (hfit : s.totalStakedBalance + s.sharePool.worthUp (s.sharePool.sharesFor amount) ≤ u128Max) :
    s.sharePool.PriceLE t.sharePool := by
  have hpos : 0 < s.sharePool.shares := h.shares_pos
  have hmint := SharePool.priceLE_mint (s.sharePool.sharesFor amount) hpos
  show s.sharePool.PriceLE ⟨t.totalStakedBalance, t.totalStakeShares⟩
  rw [h.totalStakedBalance, h.totalStakeShares, saturatingAdd_of_le hfit]
  exact hmint.of_shares_le (saturatingAdd_le_add _ _)

theorem Unstaked.priceLE {p : AccountId} {amount : ℕ} (h : Unstaked s t p amount) :
    s.sharePool.PriceLE t.sharePool := by
  have hburn := SharePool.priceLE_burn s.sharePool (s.sharePool.sharesForUp amount)
  show s.sharePool.PriceLE ⟨t.totalStakedBalance, t.totalStakeShares⟩
  rw [h.totalStakedBalance, h.totalStakeShares]
  exact hburn

/-- An action keeps the pool, or raises the price of shares that exist. -/
theorem Acted.priceLE (h : Acted u c t)
    (hfit : ∀ amount ∈ staking u c,
      u.totalStakedBalance + u.sharePool.worthUp (u.sharePool.sharesFor amount) ≤ u128Max) :
    t.sharePool = u.sharePool ∨ 0 < u.totalStakeShares ∧ u.sharePool.PriceLE t.sharePool := by
  cases h with
  | kept hledger _ _ _ => exact .inl hledger.sharePool
  | deposited _ _ _ h => exact .inl (h ▸ credited_sharePool u c)
  | withdrew _ _ _ _ h => exact .inl (internalWithdraw_spec h).2.2.2.2
  | staked amount hstaking _ h =>
    have hspec := internalStake_spec h
    have hpos := hspec.shares_pos
    have hprice := hspec.priceLE (by simpa using hfit amount hstaking)
    rw [credited_totalStakeShares] at hpos
    rw [credited_sharePool] at hprice
    exact .inr ⟨hpos, hprice⟩
  | unstaked amount _ _ h =>
    have hspec := innerUnstake_spec h
    exact .inr ⟨hspec.shares_pos, hspec.priceLE⟩

theorem internalPing_priceLE {env : Env} {b : Bool} (h : s.internalPing env = .ok (u, b))
    (hfee : s.rewardFeeFraction.Valid)
    (hfit : s.lastEpochHeight ≠ env.epochHeight →
      s.totalStakedBalance + s.pendingReward env ≤ u128Max) :
    s.sharePool.PriceLE u.sharePool := by
  rcases internalPing_cases h with ⟨hledger, -⟩ | ⟨hepoch, -, -, hreward⟩
  · rw [hledger.sharePool]
    exact .refl _
  · exact hreward.priceLE hfee (hfit hepoch)

/-- **No call lowers the price of a share.** -/
theorem call_priceLE (hfee : s.rewardFeeFraction.Valid) (hfit : StakedFits s c)
    (h : pool.step s c = .ok t) : s.sharePool.PriceLE t.sharePool := by
  rcases call_cases h with ⟨rfl, -, -⟩ | ⟨u, b, hu, hact⟩
  · exact .refl _
  · have hping := internalPing_priceLE hu hfee hfit.1
    rcases hact.priceLE (hfit.2.apply hu) with hkept | ⟨hpos, hprice⟩
    · rwa [hkept]
    · exact hping.trans hprice hpos

end Price

/-! ## The bounds of every run -/

/-- The bounds that hold in every run: the price is at least one, and the fields fit their
words. -/
structure Sound (s : StakingContract) : Prop where
  fee : s.rewardFeeFraction.Valid
  price : s.totalStakeShares ≤ s.totalStakedBalance
  staked : s.totalStakedBalance ≤ u128Max
  account : ∀ q, (s.internalGetAccount q).stakeShares ≤ u128Max

namespace Sound

variable {s t u : StakingContract} {c : Call}

theorem shares (h : Sound s) : s.totalStakeShares ≤ u128Max := h.price.trans h.staked

theorem of_fresh (h : Fresh s) : Sound s := by
  refine ⟨h.fee, h.shares.le, ?_, ?_⟩
  · rw [h.staked]
    exact (Nat.sub_le _ _).trans h.balance
  · intro q
    simp [internalGetAccount, h.accounts, default]

theorem of_sameLedger (hs : Sound s) (h : SameLedger s t)
    (hfee : t.rewardFeeFraction = s.rewardFeeFraction ∨ t.rewardFeeFraction.Valid) : Sound t := by
  refine ⟨?_, ?_, ?_, ?_⟩
  · exact hfee.elim (fun he => he ▸ hs.fee) id
  · rw [h.totalStakeShares, h.totalStakedBalance]
    exact hs.price
  · rw [h.totalStakedBalance]
    exact hs.staked
  · intro q
    rw [h.internalGetAccount]
    exact hs.account q

/-- An update of one account whose shares fit. -/
theorem account_of_updates (hs : Sound s) {id : AccountId} {a : Account} (h : Updates s t id a)
    (ha : a.stakeShares ≤ u128Max) (q : AccountId) :
    (t.internalGetAccount q).stakeShares ≤ u128Max := by
  by_cases hq : q = id
  · rw [hq, h.own _ counts_stakeShares]
    exact ha
  · rw [h.other q hq]
    exact hs.account q

theorem of_rewarded (hs : Sound s) {reward : ℕ} (h : Rewarded s t reward) : Sound t := by
  have hassets : s.totalStakeShares ≤ (s.rewardedPool reward).assets :=
    hs.price.trans (le_saturatingAdd _ hs.staked)
  have hbought : s.feeShares reward ≤ s.ownersFee reward :=
    SharePool.sharesFor_le (p := s.rewardedPool reward) hassets _
  refine ⟨h.updates.rewardFeeFraction ▸ hs.fee, ?_, ?_, ?_⟩
  · rw [h.totalStakeShares, h.totalStakedBalance]
    exact Nat.le_min.mpr ⟨(mint_le_add _ _).trans (Nat.add_le_add hassets hbought),
      mint_le_max _ hs.shares⟩
  · rw [h.totalStakedBalance]
    exact saturatingAdd_le_max _ _
  · exact hs.account_of_updates h.updates (mint_le_max _ (hs.account s.ownerId))

theorem credited (hs : Sound s) (c : Call) : Sound (credited s c) := by
  refine ⟨?_, ?_, ?_, ?_⟩
  · simpa using hs.fee
  · simpa using hs.price
  · simpa using hs.staked
  · unfold StakingPool.credited
    split
    · exact hs.account_of_updates (internalDeposit_spec s c.env).1 (hs.account _)
    · exact hs.account

theorem of_staked (hs : Sound s) {p : AccountId} {amount : ℕ} (h : Staked s t p amount) :
    Sound t := by
  have hpos : 0 < s.sharePool.shares := h.shares_pos
  have hworth := SharePool.le_worthUp hs.price hpos (s.sharePool.sharesFor amount)
  refine ⟨h.updates.rewardFeeFraction ▸ hs.fee, ?_, ?_, ?_⟩
  · rw [h.totalStakeShares, h.totalStakedBalance]
    exact Nat.le_min.mpr ⟨(saturatingAdd_le_add _ _).trans (Nat.add_le_add hs.price hworth),
      saturatingAdd_le_max _ _⟩
  · rw [h.totalStakedBalance]
    exact saturatingAdd_le_max _ _
  · exact hs.account_of_updates h.updates (saturatingAdd_le_max _ _)

theorem of_unstaked (hs : Sound s) {p : AccountId} {amount : ℕ} (h : Unstaked s t p amount) :
    Sound t := by
  obtain ⟨epoch, hup⟩ := h.updates
  refine ⟨hup.rewardFeeFraction ▸ hs.fee, ?_, ?_, ?_⟩
  · exact SharePool.shares_le_assets_of_priceLE h.priceLE hs.price h.shares_pos
  · rw [h.totalStakedBalance]
    exact (Nat.sub_le _ _).trans hs.staked
  · exact hs.account_of_updates hup (saturatingAdd_le_max _ _)

theorem internalPing (hs : Sound s) {env : Env} {b : Bool}
    (h : s.internalPing env = .ok (u, b)) : Sound u := by
  rcases internalPing_cases h with ⟨hledger, hfee⟩ | ⟨-, -, -, hreward⟩
  · exact hs.of_sameLedger hledger (.inl hfee)
  · exact hs.of_rewarded hreward

theorem acted (hs : Sound s) (h : Acted s c t) : Sound t := by
  cases h with
  | kept hledger hfee _ _ => exact hs.of_sameLedger hledger hfee
  | deposited _ _ _ h => exact h ▸ hs.credited c
  | withdrew amount promises _ _ h =>
    obtain ⟨-, -, hup, -, hpool⟩ := internalWithdraw_spec h
    have hshares : t.totalStakeShares = s.totalStakeShares := congrArg SharePool.shares hpool
    have hstaked : t.totalStakedBalance = s.totalStakedBalance := congrArg SharePool.assets hpool
    exact ⟨hup.rewardFeeFraction ▸ hs.fee, by rw [hshares, hstaked]; exact hs.price,
      by rw [hstaked]; exact hs.staked, hs.account_of_updates hup (hs.account _)⟩
  | staked amount _ _ h => exact (hs.credited c).of_staked (internalStake_spec h)
  | unstaked amount _ _ h => exact hs.of_unstaked (innerUnstake_spec h)

theorem step (hs : Sound s) (h : pool.step s c = .ok t) : Sound t := by
  rcases call_cases h with ⟨rfl, -, -⟩ | ⟨u, b, hu, hact⟩
  · exact hs
  · exact (hs.internalPing hu).acted hact

end Sound

/-- **The price is at least one in every run**, whatever saturates. -/
theorem sound_run {s : StakingContract} (h : Deployed s) (calls : List Call) :
    Sound (pool.run s calls) := by
  refine Machine.run_invariant (G := fun _ _ => True) ?_ (fun _ _ => trivial) (.of_fresh h.fresh)
  intro a c b ha _ hstep
  exact ha.step hstep

/-! ## A small pool -/

/-- The environment of a call to the small pool, all within one epoch. -/
def smallEnv (predecessorAccountId : AccountId) (tokens : ℕ) : Env where
  currentAccountId := "pool"
  predecessorAccountId
  signerAccountPk := "pk"
  attachedDeposit := min tokens u128Max
  accountBalance := STAKE_SHARE_PRICE_GUARANTEE_FUND + 10
  accountLockedBalance := 0
  epochHeight := 7
  blockHeight := 1
  blockTimestamp := 1
  attachedDeposit_le := Nat.min_le_right _ _
  accountLockedBalance_le := Nat.zero_le _

/-- A pool with ten staked tokens. -/
def smallPool : StakingContract where
  ownerId := "owner"
  stakePublicKey := "key"
  lastEpochHeight := 7
  lastTotalBalance := STAKE_SHARE_PRICE_GUARANTEE_FUND + 10
  totalStakeShares := 10
  totalStakedBalance := 10
  rewardFeeFraction := ⟨1, 10⟩
  accounts := ∅
  paused := false

theorem deployed_smallPool : Deployed smallPool :=
  ⟨smallEnv "factory" 0, false, "owner", "key", ⟨1, 10⟩, smallPool.internalRestake, by rfl⟩

/-! ## The price of a share -/

/-- The price of a share never decreases, and it is always at least one. -/
theorem sharePrice_never_decreases :
    (∀ (s t : StakingContract) (c : Call), s.rewardFeeFraction.Valid → StakedFits s c →
      pool.step s c = .ok t →
      s.totalStakedBalance * t.totalStakeShares ≤ t.totalStakedBalance * s.totalStakeShares) ∧
    ∀ s : StakingContract, Deployed s → ∀ calls : List Call,
      (pool.run s calls).totalStakeShares ≤ (pool.run s calls).totalStakedBalance := by
  constructor
  · intro s t c hfee hfit h
    exact call_priceLE hfee hfit h
  · intro s h calls
    exact (sound_run h calls).price

theorem sharePrice_smallPool :
    10 * (pool.exec smallPool ⟨smallEnv "alice" 10, .depositAndStake⟩).totalStakeShares ≤
        (pool.exec smallPool ⟨smallEnv "alice" 10, .depositAndStake⟩).totalStakedBalance * 10 ∧
      (pool.run smallPool [⟨smallEnv "alice" 10, .depositAndStake⟩]).totalStakeShares ≤
        (pool.run smallPool [⟨smallEnv "alice" 10, .depositAndStake⟩]).totalStakedBalance :=
  ⟨sharePrice_never_decreases.1 smallPool _ ⟨smallEnv "alice" 10, .depositAndStake⟩
      ⟨by decide, by decide⟩ (by decide) (by rfl),
    sharePrice_never_decreases.2 smallPool deployed_smallPool _⟩

end UncContracts.StakingPool
