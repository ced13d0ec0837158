import UncContracts.StakingPool.Reward

/-!
# What is staked can be unstaked

An amount is converted to shares and back, with a rounding at each conversion: down where it is
charged, up where it is paid out. At a price of at least one the roundings fit together: a stake is
charged at most its amount and leaves the caller with what it was charged, and everything that a
holding is worth can be unstaked.

## Main definitions

* `PingFits`, `StakeFits`, `UnstakeFits`: the additions of a call do not overflow
* `StakeKept`: what a stake charges, and leaves with the caller
* `UnstakePaid`: what an unstake pays

## Main results

* `stakeKept_of_stake`: a stake leaves what it charges
* `stakeAll_avoids_short`: there is always enough to stake all
* `unstakePaid_of_le`: all that a holding is worth can be unstaked
-/

namespace UncContracts.StakingPool

open Foundation StakingContract

/-- The additions of a ping do not overflow. -/
def PingFits (s : StakingContract) (env : Env) : Prop :=
  s.lastEpochHeight ≠ env.epochHeight →
    s.totalStakedBalance + (s.pendingReward env - s.ownersFee (s.pendingReward env)) +
        s.ownersFee (s.pendingReward env) ≤ u128Max ∧
      s.totalStakeShares + s.feeShares (s.pendingReward env) ≤ u128Max ∧
      (s.internalGetAccount s.ownerId).stakeShares + s.feeShares (s.pendingReward env) ≤ u128Max

instance (s : StakingContract) (env : Env) : Decidable (PingFits s env) :=
  inferInstanceAs (Decidable (_ → _))

/-- The additions of a stake do not overflow. -/
def StakeFits (s : StakingContract) (p : AccountId) (amount : ℕ) : Prop :=
  s.totalStakedBalance + s.sharePool.worthUp (s.sharePool.sharesFor amount) ≤ u128Max ∧
    s.totalStakeShares + s.sharePool.sharesFor amount ≤ u128Max ∧
    (s.internalGetAccount p).stakeShares + s.sharePool.sharesFor amount ≤ u128Max

instance (s : StakingContract) (p : AccountId) (amount : ℕ) : Decidable (StakeFits s p amount) :=
  inferInstanceAs (Decidable (_ ∧ _))

/-- The additions of an unstake do not overflow. -/
def UnstakeFits (s : StakingContract) (p : AccountId) (amount : ℕ) : Prop :=
  (s.internalGetAccount p).stakeShares + s.sharePool.sharesForUp amount ≤ u128Max ∧
    (s.internalGetAccount p).unstaked +
      s.sharePool.worthUp (s.sharePool.sharesForUp amount) ≤ u128Max

instance (s : StakingContract) (p : AccountId) (amount : ℕ) :
    Decidable (UnstakeFits s p amount) :=
  inferInstanceAs (Decidable (_ ∧ _))

/-- From `s` to `t` the account `p` is charged at most the amount, and what it has staked is worth
what it was charged, on top of what its shares were worth before. -/
def StakeKept (s t : StakingContract) (p : AccountId) (amount : ℕ) : Prop :=
  ∃ charge, 0 < charge ∧ charge ≤ amount ∧
    (t.internalGetAccount p).unstaked + charge = (s.internalGetAccount p).unstaked ∧
    ∀ env account, t.getAccount env p = .ok account →
      s.totalStakedBalance * (s.internalGetAccount p).stakeShares / s.totalStakeShares + charge ≤
        account.stakedBalance

/-- From `s` to `t` the account `p` is paid at least the amount, and at most the worth of one share
more, rounded up. -/
def UnstakePaid (s t : StakingContract) (p : AccountId) (amount : ℕ) : Prop :=
  ∃ received, amount ≤ received ∧
    received ≤ amount + (s.totalStakedBalance + (s.totalStakeShares - 1)) / s.totalStakeShares ∧
    (t.internalGetAccount p).unstaked = (s.internalGetAccount p).unstaked + received

/-- What a stake says where the account has too little. -/
def NOT_ENOUGH_TO_STAKE : String := "Not enough unstaked balance to stake"

/-- What an unstake says where the epochs overflow. -/
def EPOCH_OVERFLOW : String := "attempt to add with overflow"

/-! ## The ping -/

/-- A ping keeps what `q` has unstaked, takes no shares from it and does not lower the price. -/
structure Raised (s t : StakingContract) (q : AccountId) : Prop where
  unstaked : (t.internalGetAccount q).unstaked = (s.internalGetAccount q).unstaked
  stakeShares : (s.internalGetAccount q).stakeShares ≤ (t.internalGetAccount q).stakeShares
  price : s.sharePool.PriceLE t.sharePool
  shares : s.totalStakeShares ≤ t.totalStakeShares

section Ping

variable {s t u : StakingContract} {env : Env} {q : AccountId}

theorem Raised.of_sameLedger (h : SameLedger s t) : Raised s t q := by
  refine ⟨by rw [h.internalGetAccount], by rw [h.internalGetAccount], ?_, ?_⟩
  · rw [h.sharePool]
    exact .refl _
  · rw [h.totalStakeShares]

theorem Raised.of_internalPing {b : Bool} (h : s.internalPing env = .ok (u, b))
    (hfits : PingFits s env) : Raised s u q := by
  have hunstaked := unstaked_of_internalPing h q
  rcases internalPing_cases h with ⟨hledger, -⟩ | ⟨hepoch, -, -, hreward⟩
  · exact .of_sameLedger hledger
  · obtain ⟨hstaked, hshares, howner⟩ := hfits hepoch
    have hminted : s.totalStakeShares ≤ u.totalStakeShares := by
      rw [hreward.totalStakeShares, mint_of_le hshares]
      exact Nat.le_add_right _ _
    by_cases hq : q = s.ownerId
    · subst hq
      refine ⟨hunstaked, ?_, hreward.priceLE_of_fits hstaked, hminted⟩
      rw [hreward.updates.own _ counts_stakeShares]
      show _ ≤ mint _ _
      rw [mint_of_le howner]
      exact Nat.le_add_right _ _
    · have hother := hreward.updates.other q hq
      exact ⟨hunstaked, by rw [hother], hreward.priceLE_of_fits hstaked, hminted⟩

/-- What the shares are worth after a ping is at least what they were worth before. -/
theorem Raised.worth_le (h : Raised s t q) (hpos : 0 < s.totalStakeShares) :
    s.sharePool.worth (s.internalGetAccount q).stakeShares ≤
      t.sharePool.worth (t.internalGetAccount q).stakeShares :=
  (SharePool.worth_le_of_priceLE h.price hpos (hpos.trans_le h.shares) _).trans
    (SharePool.worth_mono _ h.stakeShares)

/-- A ping of the same epoch does nothing. -/
theorem internalPing_of_epoch (h : s.lastEpochHeight = env.epochHeight) :
    s.internalPing env = .ok (s, false) := by
  unfold internalPing
  rw [if_pos h]
  rfl

end Ping

/-! ## Stakes -/

section Stake

variable {s t u : StakingContract} {env : Env} {p q : AccountId} {amount : ℕ}

/-- The view of an account tells the worth of its shares. -/
theorem stakedBalance_of_getAccount {account : HumanReadableAccount}
    (h : s.getAccount env p = .ok account) :
    account.stakedBalance = s.sharePool.worth (s.internalGetAccount p).stakeShares := by
  simp only [getAccount, bind_eq_ok, stakedAmountFromNumSharesRoundedDown_eq_ok, pure_eq_ok] at h
  obtain ⟨_, ⟨-, -, rfl⟩, rfl⟩ := h
  rfl

/-- The shares of a stake, and those the account had, are worth what they were before it. -/
theorem Staked.worth_le (h : Staked s t p amount) (hfits : StakeFits s p amount) :
    s.sharePool.worth (s.internalGetAccount p).stakeShares +
        s.sharePool.worth (s.sharePool.sharesFor amount) ≤
      t.sharePool.worth (t.internalGetAccount p).stakeShares := by
  obtain ⟨hstaked, hshares, haccount⟩ := hfits
  have hpos : 0 < s.sharePool.shares := h.shares_pos
  have hleft : 0 < t.sharePool.shares := by
    show 0 < t.totalStakeShares
    rw [h.totalStakeShares, saturatingAdd_of_le hshares]
    exact Nat.add_pos_left hpos _
  have hown : (t.internalGetAccount p).stakeShares =
      (s.internalGetAccount p).stakeShares + s.sharePool.sharesFor amount := by
    rw [h.updates.own _ counts_stakeShares]
    exact saturatingAdd_of_le haccount
  rw [hown]
  exact (SharePool.worth_add_le _ _ _).trans
    (SharePool.worth_le_of_priceLE (h.priceLE hstaked) hpos hleft _)

/-- **A stake leaves what it charges.** -/
theorem stakeKept_of_stake (hprice : s.totalStakeShares ≤ s.totalStakedBalance)
    (hpos : 0 < s.totalStakeShares) {promises : List Promise}
    (hping : PingFits s env)
    (hfits : AfterPing s ⟨env, .stake amount⟩ (StakeFits · env.predecessorAccountId amount))
    (h : s.stake env amount = .ok (t, promises)) :
    StakeKept s t env.predecessorAccountId amount := by
  obtain ⟨⟨u, b⟩, hu, h⟩ := bind_eq_ok.mp h
  obtain ⟨t', ht, h⟩ := bind_eq_ok.mp h
  obtain ⟨rfl, -⟩ := Prod.mk.inj (pure_eq_ok.mp h)
  have hraised : Raised s u env.predecessorAccountId := .of_internalPing hu hping
  have hspec := internalStake_spec ht
  have hprice' : u.sharePool.shares ≤ u.sharePool.assets :=
    SharePool.shares_le_assets_of_priceLE hraised.price hprice hpos
  refine ⟨u.sharePool.worth (u.sharePool.sharesFor amount), ?_, ?_, ?_, ?_⟩
  · exact hspec.minted_pos.trans_le (SharePool.le_worth hprice' hspec.shares_pos _)
  · exact SharePool.worth_sharesFor_le _ _
  · rw [hspec.updates.own _ counts_unstaked, ← hraised.unstaked]
    exact Nat.sub_add_cancel hspec.charged
  · intro env' account haccount
    rw [stakedBalance_of_getAccount haccount]
    exact (Nat.add_le_add_right (hraised.worth_le hpos) _).trans
      (hspec.worth_le (hfits.apply hu))

theorem asU128_avoids_short (a : ℕ) : Avoids (· = NOT_ENOUGH_TO_STAKE) (asU128 a) := by
  unfold asU128
  split
  · exact .ok _
  · exact .error (by decide)

theorem ensure_avoids_short {c : Prop} [Decidable c] {msg : String} (h : msg ≠ NOT_ENOUGH_TO_STAKE) :
    Avoids (· = NOT_ENOUGH_TO_STAKE) (ensure c msg) := Avoids.ensure fun hmsg => absurd hmsg h

/-- The conversions assert that there is something to convert. -/
theorem conversion_avoids_short {c : Prop} [Decidable c] {msg : String}
    (h : msg ≠ NOT_ENOUGH_TO_STAKE) (a : ℕ) :
    Avoids (· = NOT_ENOUGH_TO_STAKE) (do ensure c msg; asU128 a) :=
  .bind (ensure_avoids_short h) fun _ _ => asU128_avoids_short a

/-- An amount that the account has is never too much. -/
theorem internalStake_avoids_short
    (h : amount ≤ (s.internalGetAccount env.predecessorAccountId).unstaked) :
    Avoids (· = NOT_ENOUGH_TO_STAKE) (s.internalStake env amount) := by
  apply Avoids.bind (ensure_avoids_short (by decide))
  intro _ _
  apply Avoids.bind (conversion_avoids_short (by decide) _)
  intro n hn
  apply Avoids.bind (ensure_avoids_short (by decide))
  intro _ _
  apply Avoids.bind (conversion_avoids_short (by decide) _)
  intro charge hcharge
  apply Avoids.bind (ensure_avoids_short (by decide))
  intro _ _
  apply Avoids.bind
  · apply Avoids.ensure
    rintro -
    obtain ⟨-, -, rfl⟩ := numSharesFromStakedAmountRoundedDown_eq_ok.mp hn
    obtain ⟨-, -, rfl⟩ := stakedAmountFromNumSharesRoundedDown_eq_ok.mp hcharge
    exact (SharePool.worth_sharesFor_le _ _).trans h
  · intro _ _
    exact .bind (conversion_avoids_short (by decide) _) fun _ _ => .pure _

theorem internalPing_avoids_short : Avoids (· = NOT_ENOUGH_TO_STAKE) (s.internalPing env) := by
  unfold internalPing
  split
  · exact .pure _
  · apply Avoids.bind (ensure_avoids_short (by decide))
    intro _ _
    apply Avoids.ite
    · apply Avoids.bind
      · exact .bind (conversion_avoids_short (by decide) _) fun _ _ =>
          .bind (conversion_avoids_short (by decide) _) fun _ _ => .pure _
      · exact fun _ _ => .pure _
    · exact .bind (.pure _) fun _ _ => .pure _

/-- **There is always enough to stake all.** -/
theorem stakeAll_avoids_short : Avoids (· = NOT_ENOUGH_TO_STAKE) (s.stakeAll env) := by
  apply Avoids.bind internalPing_avoids_short
  intro _ _
  exact .bind (internalStake_avoids_short le_rfl) fun _ _ => .pure _

end Stake

/-! ## Unstakes -/

section Unstake

variable {s : StakingContract} {env : Env} {amount : ℕ}

@[simp] theorem internalSaveAccount_sharePool (id : AccountId) (a : Account) :
    (s.internalSaveAccount id a).sharePool = s.sharePool := by
  simp [sharePool]

/-- An unstake of what the shares are worth passes all assertions. -/
theorem innerUnstake_returns (hprice : s.totalStakeShares ≤ s.totalStakedBalance)
    (hpos : 0 < s.totalStakeShares) (hamount : 0 < amount)
    (hle : amount ≤
      s.sharePool.worth (s.internalGetAccount env.predecessorAccountId).stakeShares)
    (hfits : UnstakeFits s env.predecessorAccountId amount) :
    (∃ t, s.innerUnstake env amount = .ok t) ∨
      u64Max < env.epochHeight + NUM_EPOCHS_TO_UNLOCK ∧
        s.innerUnstake env amount = .error EPOCH_OVERFLOW := by
  have hstaked : 0 < s.totalStakedBalance := hpos.trans_le hprice
  have howned := SharePool.sharesForUp_le hle hstaked
  have hreceived := SharePool.le_worthUp_sharesForUp amount (p := s.sharePool) hstaked hpos
  have hburnt : 0 < s.sharePool.sharesForUp amount := by
    have hcost := SharePool.le_sharesForUp_mul amount (p := s.sharePool) hstaked
    exact Nat.pos_of_mul_pos_right ((Nat.mul_pos hpos hamount).trans_le hcost)
  have hdown : s.sharePool.worth (s.sharePool.sharesForUp amount) ≤
      s.sharePool.worthUp (s.sharePool.sharesForUp amount) :=
    Nat.div_le_div_right (Nat.le_add_right _ _)
  obtain ⟨hshares, hunstaked⟩ := hfits
  have hn : s.numSharesFromStakedAmountRoundedUp amount = .ok (s.sharePool.sharesForUp amount) := by
    rw [numSharesFromStakedAmountRoundedUp_eq_ok]
    exact ⟨hstaked, by omega, rfl⟩
  have hup : s.stakedAmountFromNumSharesRoundedUp (s.sharePool.sharesForUp amount) =
      .ok (s.sharePool.worthUp (s.sharePool.sharesForUp amount)) := by
    rw [stakedAmountFromNumSharesRoundedUp_eq_ok]
    exact ⟨hpos, by omega, rfl⟩
  have hworth : ∀ a, (s.internalSaveAccount env.predecessorAccountId
      a).stakedAmountFromNumSharesRoundedDown (s.sharePool.sharesForUp amount) =
        .ok (s.sharePool.worth (s.sharePool.sharesForUp amount)) := by
    intro a
    rw [stakedAmountFromNumSharesRoundedDown_eq_ok, internalSaveAccount_totalStakeShares,
      internalSaveAccount_sharePool]
    exact ⟨hpos, by omega, rfl⟩
  -- Only the epoch at which the amount unlocks may overflow.
  by_cases hepoch : env.epochHeight + NUM_EPOCHS_TO_UNLOCK ≤ u64Max
  · left
    simp only [innerUnstake, exists_bind_eq_ok, ensure_eq_ok]
    refine ⟨(), hamount, (), hstaked, _, hn, (), hburnt, (), howned, _, hup, (),
      hamount.trans_le hreceived, _, checkedAdd_eq_ok.mpr ⟨hepoch, rfl⟩, _, hworth _, _, rfl⟩
  · right
    refine ⟨Nat.lt_of_not_le hepoch, ?_⟩
    simp only [innerUnstake, hn, hup, ok_bind, ensure_of hamount, ensure_of hstaked,
      ensure_of hburnt, ensure_of howned, ensure_of (hamount.trans_le hreceived), checkedAdd,
      if_neg hepoch]
    rfl

/-- What an unstake pays. -/
theorem Unstaked.paid {t : StakingContract} {p : AccountId} (h : Unstaked s t p amount)
    (hfits : UnstakeFits s p amount) : UnstakePaid s t p amount := by
  obtain ⟨epoch, hup⟩ := h.updates
  refine ⟨s.sharePool.worthUp (s.sharePool.sharesForUp amount), ?_, ?_, ?_⟩
  · exact SharePool.le_worthUp_sharesForUp amount h.staked_pos h.shares_pos
  · have hle := SharePool.worthUp_sharesForUp_le s.sharePool amount h.shares_pos
    have hone : s.sharePool.worthUp 1 =
        (s.totalStakedBalance + (s.totalStakeShares - 1)) / s.totalStakeShares := by
      simp [SharePool.worthUp]
    rwa [hone] at hle
  · rw [hup.own _ counts_unstaked]
    exact saturatingAdd_of_le hfits.2

/-- **All that a holding is worth can be unstaked.** -/
theorem unstakePaid_of_le (hprice : s.totalStakeShares ≤ s.totalStakedBalance)
    (hpos : 0 < s.totalStakeShares) (hepoch : s.lastEpochHeight = env.epochHeight)
    (hamount : 0 < amount)
    (hle : amount ≤
      s.sharePool.worth (s.internalGetAccount env.predecessorAccountId).stakeShares)
    (hfits : UnstakeFits s env.predecessorAccountId amount) :
    (∃ t promises, s.unstake env amount = .ok (t, promises) ∧
      UnstakePaid s t env.predecessorAccountId amount) ∨
      u64Max < env.epochHeight + NUM_EPOCHS_TO_UNLOCK ∧
        s.unstake env amount = .error EPOCH_OVERFLOW := by
  unfold unstake
  rw [internalPing_of_epoch hepoch, ok_bind]
  rcases innerUnstake_returns hprice hpos hamount hle hfits with ⟨t, ht⟩ | ⟨hlate, herror⟩
  · left
    refine ⟨t, t.internalRestake, ?_, (innerUnstake_spec ht).paid hfits⟩
    simp only [ht, ok_bind]
    rfl
  · right
    refine ⟨hlate, ?_⟩
    simp only [herror]
    rfl

end Unstake

/-- **What is staked can be unstaked.** At a price of at least one, and where no addition overflows:
a stake is charged at most its amount and leaves the caller with what it was charged, there is
always enough to stake all, and all that a holding is worth can be unstaked. -/
theorem staked_can_be_unstaked (s : StakingContract)
    (hprice : s.totalStakeShares ≤ s.totalStakedBalance) (hpos : 0 < s.totalStakeShares) :
    (∀ env amount t promises, PingFits s env →
      AfterPing s ⟨env, .stake amount⟩ (StakeFits · env.predecessorAccountId amount) →
      s.stake env amount = .ok (t, promises) → StakeKept s t env.predecessorAccountId amount) ∧
    (∀ env, s.stakeAll env ≠ .error NOT_ENOUGH_TO_STAKE) ∧
    ∀ env account amount, s.lastEpochHeight = env.epochHeight →
      s.getAccount env env.predecessorAccountId = .ok account → 0 < amount →
      amount ≤ account.stakedBalance → UnstakeFits s env.predecessorAccountId amount →
      (∃ t promises, s.unstake env amount = .ok (t, promises) ∧
        UnstakePaid s t env.predecessorAccountId amount) ∨
        u64Max < env.epochHeight + NUM_EPOCHS_TO_UNLOCK ∧
          s.unstake env amount = .error EPOCH_OVERFLOW := by
  refine ⟨?_, ?_, ?_⟩
  · intro env amount t promises hping hfits h
    exact stakeKept_of_stake hprice hpos hping hfits h
  · intro env h
    exact stakeAll_avoids_short NOT_ENOUGH_TO_STAKE h rfl
  · intro env account amount hepoch haccount hamount hle hfits
    rw [stakedBalance_of_getAccount haccount] at hle
    exact unstakePaid_of_le hprice hpos hepoch hamount hle hfits

/-- Alice holds ten of twenty shares of a pool with thirty staked tokens. -/
def samplePool : StakingContract :=
  { smallPool with
    totalStakeShares := 20
    totalStakedBalance := 30
    accounts := AList.insert "alice" ⟨7, 10, 7⟩ ∅ }

/-- She stakes five tokens, and can unstake all that her shares are worth. -/
theorem staked_can_be_unstaked_samplePool :
    (∃ t promises, samplePool.stake (smallEnv "alice" 0) 5 = .ok (t, promises) ∧
      StakeKept samplePool t "alice" 5) ∧
    ∃ t promises, samplePool.unstake (smallEnv "alice" 0) 15 = .ok (t, promises) ∧
      UnstakePaid samplePool t "alice" 15 := by
  have hpool := staked_can_be_unstaked samplePool (by decide) (by decide)
  constructor
  · exact ⟨_, _, rfl, hpool.1 (smallEnv "alice" 0) 5 _ _ (by decide) (by decide) rfl⟩
  · rcases hpool.2.2 (smallEnv "alice" 0) _ 15 rfl rfl (by decide) (by decide) (by decide) with
      h | ⟨hlate, -⟩
    · exact h
    · exact absurd hlate (by decide)

end UncContracts.StakingPool
