import UncContracts.StakingPool.Balance

/-!
# The distribution of a reward

The first ping of an epoch distributes what the balance has grown by. The delegators' part moves the
price first, then the owner buys shares for the fee, rounded down, and the fee is staked. So the
owner is never overpaid: the new shares are worth at most the fee. The additions saturate, and the
ping returns exactly where the new shares fit their word.

## Main definitions

* `InRange`: the amounts of the contract fit their words
* `Distributes`: what a reward leaves

## Main results

* `internalPing_returns_iff`: when the first ping of an epoch returns
* `distributes_of_internalPing`: what it distributes
* `ping_distributes`: both, and what further pings of the epoch do
-/

namespace UncContracts.StakingPool

open Foundation StakingContract

/-- The amounts of the contract fit their words. -/
structure InRange (s : StakingContract) : Prop where
  staked : s.totalStakedBalance ≤ u128Max
  shares : s.totalStakeShares ≤ u128Max
  balance : s.lastTotalBalance ≤ u128Max
  account : ∀ q, (s.internalGetAccount q).unstaked ≤ u128Max ∧
    (s.internalGetAccount q).stakeShares ≤ u128Max ∧
    (s.internalGetAccount q).unstakedAvailableEpochHeight ≤ u64Max

theorem InRange.of_epoch {s : StakingContract} (hs : InRange s) (epoch : ℕ) :
    InRange { s with lastEpochHeight := epoch } := ⟨hs.staked, hs.shares, hs.balance, hs.account⟩

/-- What a reward leaves: the staked balance grows by it, the owner receives shares that are worth
at most the fee, and nobody else's account is touched. The sums saturate. -/
structure Distributes (s t : StakingContract) (reward : ℕ) : Prop where
  fee_le : s.ownersFee reward ≤ reward
  totalStakedBalance : t.totalStakedBalance = saturatingAdd s.totalStakedBalance reward
  totalStakeShares :
    t.totalStakeShares = saturatingAdd s.totalStakeShares (s.feeShares reward)
  lastTotalBalance : t.lastTotalBalance = s.lastTotalBalance + reward
  other : ∀ q, q ≠ s.ownerId → t.accounts.lookup q = s.accounts.lookup q
  owner : t.internalGetAccount s.ownerId = { s.internalGetAccount s.ownerId with
    stakeShares := saturatingAdd (s.internalGetAccount s.ownerId).stakeShares (s.feeShares reward) }
  worth_le : s.feeShares reward * t.totalStakedBalance ≤
    s.ownersFee reward * (s.totalStakeShares + s.feeShares reward)

section Accounts

variable (s : StakingContract) {id : AccountId} (a : Account)

theorem lookup_internalSaveAccount_of_ne {q : AccountId} (h : q ≠ id) :
    (s.internalSaveAccount id a).accounts.lookup q = s.accounts.lookup q := by
  unfold internalSaveAccount
  split
  · exact AList.lookup_insert_ne h
  · exact AList.lookup_erase_ne h

@[simp] theorem internalSaveAccount_lastEpochHeight (id : AccountId) :
    (s.internalSaveAccount id a).lastEpochHeight = s.lastEpochHeight := by
  unfold internalSaveAccount
  split <;> rfl

variable {a}

/-- An account with shares is saved. -/
theorem internalGetAccount_internalSaveAccount (h : 0 < a.stakeShares) :
    (s.internalSaveAccount id a).internalGetAccount id = a := by
  unfold internalSaveAccount internalGetAccount
  rw [if_pos (.inr h), AList.lookup_insert]
  rfl

end Accounts

section Reward

variable {s t : StakingContract} {env : Env} {reward : ℕ}

theorem saturatingAdd_zero {a : ℕ} (h : a ≤ u128Max) : saturatingAdd a 0 = a :=
  saturatingAdd_of_le h

/-- Adding two parts is adding the whole. -/
theorem saturatingAdd_saturatingAdd (a b c : ℕ) :
    saturatingAdd (saturatingAdd a b) c = saturatingAdd a (b + c) := by
  unfold saturatingAdd
  omega

theorem u128Max_pos : 0 < u128Max := by
  unfold u128Max
  omega

theorem rewardedPool_pos (hstaked : 0 < s.totalStakedBalance) :
    0 < (s.rewardedPool reward).assets := by
  show 0 < min (s.totalStakedBalance + (reward - s.ownersFee reward)) u128Max
  exact Nat.lt_min.mpr ⟨by omega, u128Max_pos⟩

/-- The shares for the fee are worth at most the fee, once the fee is staked. -/
theorem feeShares_mul_le (reward : ℕ) :
    s.feeShares reward * saturatingAdd (s.rewardedPool reward).assets (s.ownersFee reward) ≤
      s.ownersFee reward * (s.totalStakeShares + s.feeShares reward) := by
  have hbuy := (s.rewardedPool reward).sharesFor_mul_le (s.ownersFee reward)
  calc s.feeShares reward * saturatingAdd (s.rewardedPool reward).assets (s.ownersFee reward)
      ≤ s.feeShares reward * ((s.rewardedPool reward).assets + s.ownersFee reward) :=
        Nat.mul_le_mul_left _ (saturatingAdd_le_add _ _)
    _ = s.feeShares reward * (s.rewardedPool reward).assets +
        s.feeShares reward * s.ownersFee reward := Nat.mul_add _ _ _
    _ ≤ s.totalStakeShares * s.ownersFee reward + s.feeShares reward * s.ownersFee reward :=
        Nat.add_le_add_right hbuy _
    _ = s.ownersFee reward * (s.totalStakeShares + s.feeShares reward) := by
        rw [← Nat.add_mul, Nat.mul_comm]

/-- A reward is distributed where the shares for the fee fit their word. -/
theorem distributeReward_returns_iff (hstaked : 0 < s.totalStakedBalance)
    (hfee : s.rewardFeeFraction.Valid) (hreward : reward ≤ u128Max) :
    (∃ t, s.distributeReward reward = .ok t) ↔ s.feeShares reward ≤ u128Max := by
  have hmultiply : s.rewardFeeFraction.multiply reward = .ok (s.ownersFee reward) :=
    RewardFeeFraction.multiply_eq_ok.mpr ⟨hfee.1, (ownersFee_le hfee reward).trans hreward, rfl⟩
  unfold distributeReward
  simp only [exists_bind_eq_ok, hmultiply]
  constructor
  · rintro ⟨_, ⟨⟩, n, hn, -⟩
    exact (numSharesFromStakedAmountRoundedDown_eq_ok.mp hn).2.1
  · intro hfit
    refine ⟨_, rfl, s.feeShares reward, ?_, _, rfl⟩
    exact numSharesFromStakedAmountRoundedDown_eq_ok.mpr ⟨rewardedPool_pos hstaked, hfit, rfl⟩

/-- A distribution rewrites the owner's account alone. -/
theorem accounts_of_distributeReward (howner : (s.internalGetAccount s.ownerId).stakeShares ≤ u128Max)
    (h : s.distributeReward reward = .ok t) :
    (∀ q, q ≠ s.ownerId → t.accounts.lookup q = s.accounts.lookup q) ∧
      t.internalGetAccount s.ownerId = { s.internalGetAccount s.ownerId with
        stakeShares :=
          saturatingAdd (s.internalGetAccount s.ownerId).stakeShares (s.feeShares reward) } := by
  simp only [distributeReward, bind_eq_ok, pure_eq_ok] at h
  obtain ⟨fee, hmultiply, n, hn, rfl⟩ := h
  obtain rfl : s.ownersFee reward = fee := (RewardFeeFraction.multiply_eq_ok.mp hmultiply).2.2
  obtain rfl : s.feeShares reward = n :=
    (numSharesFromStakedAmountRoundedDown_eq_ok.mp hn).2.2
  by_cases hsome : 0 < s.feeShares reward
  · rw [if_pos hsome]
    constructor
    · intro q hq
      exact lookup_internalSaveAccount_of_ne _ _ hq
    · apply internalGetAccount_internalSaveAccount
      exact Nat.lt_min.mpr ⟨Nat.add_pos_right _ hsome, u128Max_pos⟩
  · rw [if_neg hsome, Nat.eq_zero_of_not_pos hsome, saturatingAdd_zero howner]
    exact ⟨fun _ _ => rfl, rfl⟩

/-- What a distribution leaves, once the balance is recorded. -/
theorem distributes_of_distributeReward (hs : InRange s) (hfee : s.rewardFeeFraction.Valid)
    (h : s.distributeReward reward = .ok t) :
    Distributes s { t with lastTotalBalance := s.lastTotalBalance + reward } reward := by
  obtain ⟨hspec, -⟩ := distributeReward_spec h
  obtain ⟨hother, howner⟩ := accounts_of_distributeReward (hs.account _).2.1 h
  have hle := ownersFee_le hfee reward
  have hassets : saturatingAdd (s.rewardedPool reward).assets (s.ownersFee reward) =
      saturatingAdd s.totalStakedBalance reward := by
    rw [rewardedPool, saturatingAdd_saturatingAdd, Nat.sub_add_cancel hle]
  refine ⟨hle, hspec.totalStakedBalance.trans hassets, ?_, rfl, hother, howner, ?_⟩
  · refine hspec.totalStakeShares.trans ?_
    unfold mint
    split
    · rfl
    · next hnone => rw [Nat.eq_zero_of_not_pos hnone, saturatingAdd_zero hs.shares]
  · show s.feeShares reward * t.totalStakedBalance ≤ _
    rw [hspec.totalStakedBalance]
    exact feeShares_mul_le reward

@[simp] theorem feeShares_zero (s : StakingContract) : s.feeShares 0 = 0 := by
  simp [feeShares, SharePool.sharesFor, ownersFee]

/-- A distribution keeps the epoch. -/
theorem lastEpochHeight_of_distributeReward (h : s.distributeReward reward = .ok t) :
    t.lastEpochHeight = s.lastEpochHeight := by
  simp only [distributeReward, bind_eq_ok, pure_eq_ok] at h
  obtain ⟨fee, -, n, -, rfl⟩ := h
  show StakingContract.lastEpochHeight (if 0 < n then _ else _) = _
  split
  · exact internalSaveAccount_lastEpochHeight _ _ _
  · rfl

/-- Nothing to distribute leaves all but the recorded balance alone. -/
theorem distributes_zero (hs : InRange s) (h : t.accounts = s.accounts)
    (hshares : t.totalStakeShares = s.totalStakeShares)
    (hstaked : t.totalStakedBalance = s.totalStakedBalance)
    (hlast : t.lastTotalBalance = s.lastTotalBalance) : Distributes s t 0 := by
  have hfee : s.ownersFee 0 = 0 := by simp [ownersFee]
  refine ⟨hfee.le, ?_, ?_, hlast, ?_, ?_, ?_⟩
  · rw [hstaked, saturatingAdd_zero hs.staked]
  · rw [hshares, feeShares_zero, saturatingAdd_zero hs.shares]
  · intro q _
    rw [h]
  · rw [feeShares_zero, saturatingAdd_zero (hs.account _).2.1, internalGetAccount, h]
    rfl
  · rw [feeShares_zero, Nat.zero_mul]
    exact Nat.zero_le _

/-- A ping keeps all unstaked balances. -/
theorem unstaked_of_internalPing {b : Bool} (h : s.internalPing env = .ok (t, b)) (q : AccountId) :
    (t.internalGetAccount q).unstaked = (s.internalGetAccount q).unstaked := by
  rcases internalPing_cases h with ⟨hledger, -⟩ | ⟨-, -, -, hreward⟩
  · rw [hledger.internalGetAccount]
  · by_cases hq : q = s.ownerId
    · subst hq
      exact hreward.updates.own _ counts_unstaked
    · rw [hreward.updates.other q hq]

theorem totalBalance_le (env : Env) : totalBalance env ≤ u128Max :=
  (Nat.sub_le _ _).trans (saturatingAdd_le_max _ _)

/-- A new epoch changes nothing that a distribution reads. -/
theorem Distributes.of_epoch {epoch : ℕ}
    (h : Distributes { s with lastEpochHeight := epoch } t reward) : Distributes s t reward :=
  ⟨h.fee_le, h.totalStakedBalance, h.totalStakeShares, h.lastTotalBalance, h.other, h.owner,
    h.worth_le⟩

/-- The first ping of an epoch, by whether there is a reward. -/
theorem internalPing_eq_ok {b : Bool} (hbalance : s.lastTotalBalance ≤ totalBalance env)
    (hepoch : s.lastEpochHeight ≠ env.epochHeight) :
    s.internalPing env = .ok (t, b) ↔ b = true ∧ ∃ u,
      (if 0 < s.pendingReward env
        then { s with lastEpochHeight := env.epochHeight }.distributeReward (s.pendingReward env)
        else pure { s with lastEpochHeight := env.epochHeight }) = .ok u ∧
      { u with lastTotalBalance := totalBalance env } = t := by
  have hensure : ensure (s.lastTotalBalance ≤ totalBalance env)
      "The new total balance should not be less than the old total balance" = .ok () :=
    ensure_eq_ok.mpr hbalance
  have hping : s.internalPing env = (if 0 < s.pendingReward env
      then { s with lastEpochHeight := env.epochHeight }.distributeReward (s.pendingReward env)
      else pure { s with lastEpochHeight := env.epochHeight }) >>= fun u =>
        pure ({ u with lastTotalBalance := totalBalance env }, true) := by
    unfold internalPing pendingReward
    rw [if_neg hepoch]
    simp only [hensure]
    split <;> rfl
  rw [hping, bind_eq_ok]
  constructor
  · rintro ⟨u, hu, h⟩
    obtain ⟨rfl, rfl⟩ := Prod.mk.inj (pure_eq_ok.mp h)
    exact ⟨rfl, u, hu, rfl⟩
  · rintro ⟨rfl, u, hu, rfl⟩
    exact ⟨u, hu, rfl⟩

/-- The first ping of an epoch returns where the shares for the fee fit their word. -/
theorem internalPing_returns_iff (hstaked : 0 < s.totalStakedBalance)
    (hfee : s.rewardFeeFraction.Valid) (hbalance : s.lastTotalBalance ≤ totalBalance env)
    (hepoch : s.lastEpochHeight ≠ env.epochHeight) :
    (∃ t, s.internalPing env = .ok (t, true)) ↔ s.feeShares (s.pendingReward env) ≤ u128Max := by
  have hreward : s.pendingReward env ≤ u128Max := (Nat.sub_le _ _).trans (totalBalance_le env)
  have hiff := distributeReward_returns_iff
    (s := { s with lastEpochHeight := env.epochHeight }) hstaked hfee hreward
  simp only [internalPing_eq_ok hbalance hepoch, true_and]
  by_cases hpos : 0 < s.pendingReward env
  · rw [if_pos hpos]
    refine Iff.trans ?_ hiff
    constructor
    · rintro ⟨_, u, hu, -⟩
      exact ⟨u, hu⟩
    · rintro ⟨u, hu⟩
      exact ⟨_, u, hu, rfl⟩
  · rw [if_neg hpos, Nat.eq_zero_of_not_pos hpos]
    constructor
    · rintro -
      rw [feeShares_zero]
      exact Nat.zero_le _
    · rintro -
      exact ⟨_, _, rfl, rfl⟩

/-- What the first ping of an epoch distributes. -/
theorem distributes_of_internalPing {b : Bool} (hs : InRange s) (hfee : s.rewardFeeFraction.Valid)
    (hbalance : s.lastTotalBalance ≤ totalBalance env)
    (hepoch : s.lastEpochHeight ≠ env.epochHeight) (h : s.internalPing env = .ok (t, b)) :
    Distributes s t (s.pendingReward env) ∧ t.lastEpochHeight = env.epochHeight := by
  have hlast : s.lastTotalBalance + s.pendingReward env = totalBalance env := by
    unfold pendingReward
    omega
  obtain ⟨-, u, hu, rfl⟩ := (internalPing_eq_ok hbalance hepoch).mp h
  rw [← hlast]
  split at hu
  · have hepoch' := lastEpochHeight_of_distributeReward hu
    have hdistributes := distributes_of_distributeReward (hs.of_epoch env.epochHeight) hfee hu
    exact ⟨hdistributes.of_epoch, hepoch'⟩
  · next hnone =>
    obtain rfl := pure_eq_ok.mp hu
    rw [Nat.eq_zero_of_not_pos hnone]
    exact ⟨distributes_zero hs rfl rfl rfl rfl, rfl⟩

end Reward

/-- Where the sums fit their words, the distribution is exact. -/
theorem Distributes.exact {s t : StakingContract} {reward : ℕ} (h : Distributes s t reward)
    (hstaked : s.totalStakedBalance + reward ≤ u128Max)
    (hshares : s.totalStakeShares + s.feeShares reward ≤ u128Max) :
    t.totalStakedBalance = s.totalStakedBalance + reward ∧
      t.totalStakeShares = s.totalStakeShares + s.feeShares reward ∧
      s.feeShares reward * t.totalStakedBalance ≤ s.ownersFee reward * t.totalStakeShares := by
  have hminted := h.totalStakeShares.trans (saturatingAdd_of_le hshares)
  refine ⟨h.totalStakedBalance.trans (saturatingAdd_of_le hstaked), hminted, ?_⟩
  rw [hminted]
  exact h.worth_le

/-- **Distribution.** The first ping of an epoch returns exactly where the shares for the fee fit
their word. It distributes the reward, exactly where the sums fit their words as well, and further
pings of the epoch change nothing. -/
theorem ping_distributes (s : StakingContract) (env : Env) (hs : InRange s)
    (hstaked : 0 < s.totalStakedBalance) (hfee : s.rewardFeeFraction.Valid)
    (hbalance : s.lastTotalBalance ≤ totalBalance env)
    (hepoch : s.lastEpochHeight ≠ env.epochHeight) :
    ((∃ t, s.internalPing env = .ok (t, true)) ↔
      s.feeShares (s.pendingReward env) ≤ u128Max) ∧
    ∀ t b, s.internalPing env = .ok (t, b) →
      b = true ∧ t.lastTotalBalance = totalBalance env ∧ Distributes s t (s.pendingReward env) ∧
      (s.totalStakedBalance + s.pendingReward env ≤ u128Max →
        s.totalStakeShares + s.feeShares (s.pendingReward env) ≤ u128Max →
        t.totalStakedBalance = s.totalStakedBalance + s.pendingReward env ∧
        t.totalStakeShares = s.totalStakeShares + s.feeShares (s.pendingReward env) ∧
        s.feeShares (s.pendingReward env) * t.totalStakedBalance ≤
          s.ownersFee (s.pendingReward env) * t.totalStakeShares) ∧
      ∀ env', env'.epochHeight = env.epochHeight → t.internalPing env' = .ok (t, false) := by
  refine ⟨internalPing_returns_iff hstaked hfee hbalance hepoch, ?_⟩
  intro t b h
  obtain ⟨hdistributes, hlast⟩ := distributes_of_internalPing hs hfee hbalance hepoch h
  obtain ⟨hb, u, -, hu⟩ := (internalPing_eq_ok hbalance hepoch).mp h
  refine ⟨hb, by rw [← hu], hdistributes, hdistributes.exact, ?_⟩
  intro env' hsame
  unfold internalPing
  rw [if_pos (hlast.trans hsame.symm)]
  rfl

theorem inRange_of_empty {s : StakingContract} (h : s.accounts = ∅)
    (hstaked : s.totalStakedBalance ≤ u128Max) (hshares : s.totalStakeShares ≤ u128Max)
    (hbalance : s.lastTotalBalance ≤ u128Max) : InRange s := by
  refine ⟨hstaked, hshares, hbalance, ?_⟩
  intro q
  have hnone : s.internalGetAccount q = ⟨0, 0, 0⟩ := by
    rw [internalGetAccount, h]
    rfl
  rw [hnone]
  exact ⟨Nat.zero_le _, Nat.zero_le _, Nat.zero_le _⟩

/-- A ping of the pool with ten staked tokens in the next epoch, after a reward of a hundred. -/
theorem ping_distributes_smallPool :
    ∃ t, smallPool.internalPing (laterEnv 0 10 100 8) = .ok (t, true) ∧
      Distributes smallPool t 100 := by
  have hping := ping_distributes smallPool (laterEnv 0 10 100 8)
    (inRange_of_empty rfl (by decide) (by decide) (by decide)) (by decide) ⟨by decide, by decide⟩
    (by decide) (by decide)
  obtain ⟨t, ht⟩ := hping.1.mpr (by decide)
  exact ⟨t, ht, (hping.2 t true ht).2.2.1⟩

/-- A pool whose staked balance is the largest there is. -/
def fullPool : StakingContract :=
  { smallPool with totalStakedBalance := u128Max }

/-- A reward that does not fit does not reach the staked balance. -/
theorem not_exact_fullPool :
    InRange fullPool ∧ 0 < fullPool.totalStakedBalance ∧ fullPool.rewardFeeFraction.Valid ∧
      fullPool.lastTotalBalance ≤ totalBalance (laterEnv 0 10 100 8) ∧
      fullPool.lastEpochHeight ≠ (laterEnv 0 10 100 8).epochHeight ∧
      fullPool.pendingReward (laterEnv 0 10 100 8) = 100 ∧
      ∃ t, fullPool.internalPing (laterEnv 0 10 100 8) = .ok (t, true) ∧
        t.totalStakedBalance ≠ fullPool.totalStakedBalance + 100 := by
  refine ⟨inRange_of_empty rfl le_rfl (by decide) (by decide), by decide, ⟨by decide, by decide⟩,
    by decide, by decide, by decide, ?_⟩
  refine ⟨_, rfl, ?_⟩
  decide

end UncContracts.StakingPool
