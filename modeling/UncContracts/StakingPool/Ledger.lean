import UncContracts.Foundation.SharePool
import UncContracts.StakingPool.Contract

/-!
# The ledger of the staking pool

What each internal method does to the pool of shares and to the accounts, and what a call is
made of: the distribution of a reward, a deposit and one action. The results on the runs of the
contract rest on these descriptions and never open the methods again.

## Main definitions

* `StakingContract.sharePool`: the staked balance, divided into shares
* `Updates`: one account is rewritten
* `Acted`: the actions of a call after the reward
* `Called`: what a call does, with the promises that it issues
* `staking`, `unstaking`: the amount a call stakes or unstakes

## Main results

* `internalPing_cases`, `distributeReward_spec`, `internalDeposit_spec`, `internalWithdraw_spec`,
  `internalStake_spec`, `innerUnstake_spec`: one description for each internal method
* `called_of_call`, `call_cases`: what a successful call is made of
-/

namespace UncContracts.StakingPool

open Foundation

namespace StakingContract

/-- The staked balance, divided into the stake shares. -/
def sharePool (s : StakingContract) : SharePool := ⟨s.totalStakedBalance, s.totalStakeShares⟩

@[simp] theorem sharePool_assets (s : StakingContract) :
    s.sharePool.assets = s.totalStakedBalance := rfl

@[simp] theorem sharePool_shares (s : StakingContract) :
    s.sharePool.shares = s.totalStakeShares := rfl

/-- The owner's fee on a reward. -/
def ownersFee (s : StakingContract) (reward : ℕ) : ℕ :=
  s.rewardFeeFraction.numerator * reward / s.rewardFeeFraction.denominator

/-- The pool after the delegators' part of a reward. -/
def rewardedPool (s : StakingContract) (reward : ℕ) : SharePool :=
  ⟨saturatingAdd s.totalStakedBalance (reward - s.ownersFee reward), s.totalStakeShares⟩

/-- The shares the owner buys for the fee on a reward. -/
def feeShares (s : StakingContract) (reward : ℕ) : ℕ :=
  (s.rewardedPool reward).sharesFor (s.ownersFee reward)

/-- What is distributed when the contract is pinged. -/
def pendingReward (s : StakingContract) (env : Env) : ℕ := totalBalance env - s.lastTotalBalance

end StakingContract

open StakingContract

/-- The total after `n` units are minted, where minting nothing writes nothing. -/
def mint (total n : ℕ) : ℕ := if 0 < n then saturatingAdd total n else total

theorem mint_of_le {total n : ℕ} (h : total + n ≤ u128Max) : mint total n = total + n := by
  unfold mint
  split
  · exact saturatingAdd_of_le h
  · omega

theorem mint_le_add (total n : ℕ) : mint total n ≤ total + n := by
  unfold mint
  split
  · exact saturatingAdd_le_add _ _
  · omega

theorem mint_le_max {total : ℕ} (n : ℕ) (h : total ≤ u128Max) : mint total n ≤ u128Max := by
  unfold mint
  split
  · exact saturatingAdd_le_max _ _
  · exact h

theorem le_saturatingAdd {total : ℕ} (n : ℕ) (h : total ≤ u128Max) :
    total ≤ saturatingAdd total n := Nat.le_min.mpr ⟨Nat.le_add_right _ _, h⟩

theorem le_mint {total : ℕ} (n : ℕ) (h : total ≤ u128Max) : total ≤ mint total n := by
  unfold mint
  split
  · exact le_saturatingAdd n h
  · exact le_rfl

/-! ## Accounts -/

/-- `f` counts nothing for an account without balances. -/
def Counts (f : Account → ℕ) : Prop := ∀ epoch, f ⟨0, 0, epoch⟩ = 0

theorem counts_unstaked : Counts Account.unstaked := fun _ => rfl

theorem counts_stakeShares : Counts Account.stakeShares := fun _ => rfl

section Accounts

variable (s : StakingContract) (id : AccountId) (a : Account)

@[simp] theorem internalSaveAccount_totalStakedBalance :
    (s.internalSaveAccount id a).totalStakedBalance = s.totalStakedBalance := by
  unfold internalSaveAccount
  split <;> rfl

@[simp] theorem internalSaveAccount_totalStakeShares :
    (s.internalSaveAccount id a).totalStakeShares = s.totalStakeShares := by
  unfold internalSaveAccount
  split <;> rfl

@[simp] theorem internalSaveAccount_lastTotalBalance :
    (s.internalSaveAccount id a).lastTotalBalance = s.lastTotalBalance := by
  unfold internalSaveAccount
  split <;> rfl

@[simp] theorem internalSaveAccount_ownerId :
    (s.internalSaveAccount id a).ownerId = s.ownerId := by
  unfold internalSaveAccount
  split <;> rfl

@[simp] theorem internalSaveAccount_rewardFeeFraction :
    (s.internalSaveAccount id a).rewardFeeFraction = s.rewardFeeFraction := by
  unfold internalSaveAccount
  split <;> rfl

/-- The saved accounts depend on the accounts alone. -/
theorem internalSaveAccount_accounts {t : StakingContract} (h : t.accounts = s.accounts) :
    (t.internalSaveAccount id a).accounts = (s.internalSaveAccount id a).accounts := by
  unfold internalSaveAccount
  split
  · exact congrArg (AList.insert id a) h
  · exact congrArg (AList.erase id) h

variable {id}

theorem internalGetAccount_internalSaveAccount_of_ne {q : AccountId} (h : q ≠ id) :
    (s.internalSaveAccount id a).internalGetAccount q = s.internalGetAccount q := by
  unfold internalSaveAccount internalGetAccount
  split
  · rw [AList.lookup_insert_ne h]
  · rw [AList.lookup_erase_ne h]

variable {a} {f : Account → ℕ}

theorem Counts.eq_zero (hf : Counts f) (h : ¬ (0 < a.unstaked ∨ 0 < a.stakeShares)) : f a = 0 := by
  obtain ⟨unstaked, stakeShares, epoch⟩ := a
  obtain ⟨rfl, rfl⟩ : unstaked = 0 ∧ stakeShares = 0 := by simpa using h
  exact hf epoch

theorem Counts.internalGetAccount_internalSaveAccount (hf : Counts f) :
    f ((s.internalSaveAccount id a).internalGetAccount id) = f a := by
  unfold internalSaveAccount internalGetAccount
  split
  · rw [AList.lookup_insert]
    rfl
  · rename_i hempty
    rw [AList.lookup_erase, hf.eq_zero hempty]
    exact hf 0

theorem Counts.amount (hf : Counts f) (id : AccountId) :
    s.accounts.amount f id = f (s.internalGetAccount id) := by
  unfold Map.amount internalGetAccount
  cases s.accounts.lookup id with
  | none => exact (hf 0).symm
  | some a => rfl

theorem Counts.total_internalSaveAccount (hf : Counts f) :
    Map.total f (s.internalSaveAccount id a).accounts + f (s.internalGetAccount id) =
      Map.total f s.accounts + f a := by
  rw [← hf.amount s id]
  unfold internalSaveAccount
  split
  · exact Map.total_insert f s.accounts id a
  · rename_i hempty
    rw [hf.eq_zero hempty]
    exact Map.total_erase f s.accounts id

/-- A balance of one account is at most the total over all accounts. -/
theorem Counts.le_total (hf : Counts f) (id : AccountId) :
    f (s.internalGetAccount id) ≤ Map.total f s.accounts := by
  rw [← hf.amount s id]
  exact Map.amount_le_total f s.accounts id

end Accounts

/-- From `s` to `t` the account `id` becomes `a`; all other accounts, the owner and the fee are
kept. -/
structure Updates (s t : StakingContract) (id : AccountId) (a : Account) : Prop where
  own : ∀ f, Counts f → f (t.internalGetAccount id) = f a
  other : ∀ q, q ≠ id → t.internalGetAccount q = s.internalGetAccount q
  total : ∀ f, Counts f → Map.total f t.accounts + f (s.internalGetAccount id) =
    Map.total f s.accounts + f a
  ownerId : t.ownerId = s.ownerId
  rewardFeeFraction : t.rewardFeeFraction = s.rewardFeeFraction

/-- An account saved in a state that differs in its totals only. -/
theorem Updates.of_save {s t : StakingContract} {id : AccountId} {a : Account}
    (haccounts : t.accounts = (s.internalSaveAccount id a).accounts)
    (howner : t.ownerId = s.ownerId) (hfee : t.rewardFeeFraction = s.rewardFeeFraction) :
    Updates s t id a := by
  have hget : ∀ q, t.internalGetAccount q = (s.internalSaveAccount id a).internalGetAccount q :=
    fun q => by rw [internalGetAccount, haccounts, internalGetAccount]
  refine ⟨?_, ?_, ?_, howner, hfee⟩
  · intro f hf
    rw [hget, hf.internalGetAccount_internalSaveAccount]
  · intro q hq
    rw [hget, internalGetAccount_internalSaveAccount_of_ne s a hq]
  · intro f hf
    rw [haccounts, hf.total_internalSaveAccount]

/-- The ledger is kept: the totals, the accounts and the owner. -/
structure SameLedger (s t : StakingContract) : Prop where
  lastTotalBalance : t.lastTotalBalance = s.lastTotalBalance
  totalStakeShares : t.totalStakeShares = s.totalStakeShares
  totalStakedBalance : t.totalStakedBalance = s.totalStakedBalance
  accounts : t.accounts = s.accounts
  ownerId : t.ownerId = s.ownerId

theorem SameLedger.refl (s : StakingContract) : SameLedger s s := ⟨rfl, rfl, rfl, rfl, rfl⟩

theorem SameLedger.internalGetAccount {s t : StakingContract} (h : SameLedger s t)
    (id : AccountId) : t.internalGetAccount id = s.internalGetAccount id := by
  rw [StakingContract.internalGetAccount, h.accounts, StakingContract.internalGetAccount]

theorem SameLedger.sharePool {s t : StakingContract} (h : SameLedger s t) :
    t.sharePool = s.sharePool := by
  rw [StakingContract.sharePool, h.totalStakedBalance, h.totalStakeShares,
    StakingContract.sharePool]

/-! ## The rounded conversions -/

section Conversions

variable {s : StakingContract} {a n : ℕ}

@[simp] theorem numSharesFromStakedAmountRoundedDown_eq_ok :
    s.numSharesFromStakedAmountRoundedDown a = .ok n ↔
      0 < s.totalStakedBalance ∧ s.sharePool.sharesFor a ≤ u128Max ∧ s.sharePool.sharesFor a = n := by
  simp [numSharesFromStakedAmountRoundedDown, SharePool.sharesFor]

@[simp] theorem numSharesFromStakedAmountRoundedUp_eq_ok :
    s.numSharesFromStakedAmountRoundedUp a = .ok n ↔
      0 < s.totalStakedBalance ∧ s.sharePool.sharesForUp a ≤ u128Max ∧
        s.sharePool.sharesForUp a = n := by
  simp [numSharesFromStakedAmountRoundedUp, SharePool.sharesForUp]

@[simp] theorem stakedAmountFromNumSharesRoundedDown_eq_ok :
    s.stakedAmountFromNumSharesRoundedDown n = .ok a ↔
      0 < s.totalStakeShares ∧ s.sharePool.worth n ≤ u128Max ∧ s.sharePool.worth n = a := by
  simp [stakedAmountFromNumSharesRoundedDown, SharePool.worth]

@[simp] theorem stakedAmountFromNumSharesRoundedUp_eq_ok :
    s.stakedAmountFromNumSharesRoundedUp n = .ok a ↔
      0 < s.totalStakeShares ∧ s.sharePool.worthUp n ≤ u128Max ∧ s.sharePool.worthUp n = a := by
  simp [stakedAmountFromNumSharesRoundedUp, SharePool.worthUp]

end Conversions

/-! ## The internal methods -/

/-- The owner's account after the fee on a reward. -/
def StakingContract.ownerRewarded (s : StakingContract) (reward : ℕ) : Account :=
  { s.internalGetAccount s.ownerId with
    stakeShares := mint (s.internalGetAccount s.ownerId).stakeShares (s.feeShares reward) }

/-- A reward goes to the shares and, by its fee, to the owner. -/
structure Rewarded (s t : StakingContract) (reward : ℕ) : Prop where
  updates : Updates s t s.ownerId (s.ownerRewarded reward)
  fee : s.rewardFeeFraction.multiply reward = .ok (s.ownersFee reward)
  positive : 0 < (s.rewardedPool reward).assets
  totalStakeShares : t.totalStakeShares = mint s.totalStakeShares (s.feeShares reward)
  totalStakedBalance :
    t.totalStakedBalance = saturatingAdd (s.rewardedPool reward).assets (s.ownersFee reward)

theorem distributeReward_spec {s t : StakingContract} {reward : ℕ}
    (h : s.distributeReward reward = .ok t) :
    Rewarded s t reward ∧ t.lastTotalBalance = s.lastTotalBalance := by
  simp only [distributeReward, bind_eq_ok, pure_eq_ok] at h
  obtain ⟨fee, hfee, n, hn, rfl⟩ := h
  obtain rfl : fee = s.ownersFee reward := (RewardFeeFraction.multiply_eq_ok.mp hfee).2.2.symm
  obtain ⟨hpos, -, hn⟩ := numSharesFromStakedAmountRoundedDown_eq_ok.mp hn
  obtain rfl : n = s.feeShares reward := hn.symm
  by_cases hshares : 0 < s.feeShares reward
  · rw [if_pos hshares]
    refine ⟨⟨.of_save ?_ ?_ ?_, hfee, hpos, ?_, ?_⟩, ?_⟩
    · simp only [ownerRewarded, mint, if_pos hshares]
      exact internalSaveAccount_accounts _ _ _ rfl
    all_goals simp [mint, hshares, rewardedPool]
  · -- The fee buys no share, and the account of the owner is not saved.
    rw [if_neg hshares]
    have hkept : s.ownerRewarded reward = s.internalGetAccount s.ownerId := by
      rw [ownerRewarded, mint, if_neg hshares]
    refine ⟨⟨⟨?_, ?_, ?_, rfl, rfl⟩, hfee, hpos, ?_, rfl⟩, rfl⟩
    · intro f _
      rw [hkept]
      rfl
    · intro q _
      rfl
    · intro f _
      rw [hkept]
    · simp [mint, hshares]

/-- A ping keeps the ledger, records a balance that did not change, or distributes a reward. -/
theorem internalPing_cases {s t : StakingContract} {env : Env} {b : Bool}
    (h : s.internalPing env = .ok (t, b)) :
    (SameLedger s t ∧ t.rewardFeeFraction = s.rewardFeeFraction) ∨
      (s.lastEpochHeight ≠ env.epochHeight ∧ 0 < s.pendingReward env ∧
        t.lastTotalBalance = s.lastTotalBalance + s.pendingReward env ∧
        Rewarded s t (s.pendingReward env)) := by
  unfold internalPing at h
  split at h
  · obtain ⟨rfl, -⟩ : s = t ∧ false = b := by simpa using h
    exact .inl ⟨.refl s, rfl⟩
  · rename_i hepoch
    simp only [bind_eq_ok, ensure_eq_ok] at h
    obtain ⟨-, hle, h⟩ := h
    have hbalance : totalBalance env = s.lastTotalBalance + s.pendingReward env := by
      unfold pendingReward
      omega
    split at h
    · rename_i hreward
      obtain ⟨u, hu, h⟩ := bind_eq_ok.mp h
      obtain ⟨rfl, -⟩ := Prod.mk.inj (pure_eq_ok.mp h)
      obtain ⟨⟨hup, hfee, hpos, hshares, hstaked⟩, -⟩ := distributeReward_spec hu
      exact .inr ⟨hepoch, hreward, hbalance, ⟨hup.own, hup.other, hup.total, hup.ownerId,
        hup.rewardFeeFraction⟩, hfee, hpos, hshares, hstaked⟩
    · rename_i hreward
      obtain ⟨u, hu, h⟩ := bind_eq_ok.mp h
      obtain rfl := pure_eq_ok.mp hu
      obtain ⟨rfl, -⟩ := Prod.mk.inj (pure_eq_ok.mp h)
      refine .inl ⟨⟨?_, rfl, rfl, rfl, rfl⟩, rfl⟩
      show totalBalance env = s.lastTotalBalance
      omega

theorem internalDeposit_spec (s : StakingContract) (env : Env) :
    Updates s (s.internalDeposit env).1 env.predecessorAccountId
      { s.internalGetAccount env.predecessorAccountId with
        unstaked := saturatingAdd
          (s.internalGetAccount env.predecessorAccountId).unstaked env.attachedDeposit } ∧
      (s.internalDeposit env).1.lastTotalBalance =
        saturatingAdd s.lastTotalBalance env.attachedDeposit ∧
      (s.internalDeposit env).1.sharePool = s.sharePool := by
  refine ⟨.of_save rfl ?_ ?_, ?_, ?_⟩ <;> simp [internalDeposit, sharePool]

theorem internalWithdraw_spec {s t : StakingContract} {env : Env} {amount : ℕ}
    {promises : List Promise} (h : s.internalWithdraw env amount = .ok (t, promises)) :
    0 < amount ∧ amount ≤ (s.internalGetAccount env.predecessorAccountId).unstaked ∧
      Updates s t env.predecessorAccountId
        { s.internalGetAccount env.predecessorAccountId with
          unstaked := (s.internalGetAccount env.predecessorAccountId).unstaked - amount } ∧
      t.lastTotalBalance = s.lastTotalBalance - amount ∧ t.sharePool = s.sharePool := by
  simp only [internalWithdraw, bind_eq_ok, ensure_eq_ok, pure_eq_ok] at h
  obtain ⟨-, hpos, -, hle, -, -, h⟩ := h
  obtain ⟨rfl, -⟩ := Prod.mk.inj h
  refine ⟨hpos, hle, .of_save rfl ?_ ?_, ?_, ?_⟩ <;> simp [sharePool]

/-- The caller is charged the worth of the shares rounded down, the pool grows by the worth
rounded up. -/
structure Staked (s t : StakingContract) (p : AccountId) (amount : ℕ) : Prop where
  shares_pos : 0 < s.totalStakeShares
  minted_pos : 0 < s.sharePool.sharesFor amount
  charged : s.sharePool.worth (s.sharePool.sharesFor amount) ≤ (s.internalGetAccount p).unstaked
  updates : Updates s t p { s.internalGetAccount p with
    unstaked := (s.internalGetAccount p).unstaked -
      s.sharePool.worth (s.sharePool.sharesFor amount)
    stakeShares := saturatingAdd (s.internalGetAccount p).stakeShares
      (s.sharePool.sharesFor amount) }
  lastTotalBalance : t.lastTotalBalance = s.lastTotalBalance
  totalStakeShares :
    t.totalStakeShares = saturatingAdd s.totalStakeShares (s.sharePool.sharesFor amount)
  totalStakedBalance : t.totalStakedBalance =
    saturatingAdd s.totalStakedBalance (s.sharePool.worthUp (s.sharePool.sharesFor amount))

theorem internalStake_spec {s t : StakingContract} {env : Env} {amount : ℕ}
    (h : s.internalStake env amount = .ok t) : Staked s t env.predecessorAccountId amount := by
  simp only [internalStake, bind_eq_ok, ensure_eq_ok, pure_eq_ok,
    numSharesFromStakedAmountRoundedDown_eq_ok, stakedAmountFromNumSharesRoundedDown_eq_ok,
    stakedAmountFromNumSharesRoundedUp_eq_ok] at h
  obtain ⟨-, -, n, ⟨-, -, rfl⟩, -, hminted, charge, ⟨hshares, -, rfl⟩, -, -, -, hcharged, up,
    ⟨-, -, rfl⟩, rfl⟩ := h
  refine ⟨hshares, hminted, hcharged, .of_save ?_ ?_ ?_, ?_, ?_, ?_⟩ <;> simp [sharePool]

/-- The caller receives the worth of the shares rounded up, the pool shrinks by the worth rounded
down. The shares leave the total and are added to the account. -/
structure Unstaked (s t : StakingContract) (p : AccountId) (amount : ℕ) : Prop where
  staked_pos : 0 < s.totalStakedBalance
  shares_pos : 0 < s.totalStakeShares
  burnt_pos : 0 < s.sharePool.sharesForUp amount
  owned : s.sharePool.sharesForUp amount ≤ (s.internalGetAccount p).stakeShares
  updates : ∃ epoch, Updates s t p
    { stakeShares := saturatingAdd (s.internalGetAccount p).stakeShares
        (s.sharePool.sharesForUp amount)
      unstaked := saturatingAdd (s.internalGetAccount p).unstaked
        (s.sharePool.worthUp (s.sharePool.sharesForUp amount))
      unstakedAvailableEpochHeight := epoch }
  lastTotalBalance : t.lastTotalBalance = s.lastTotalBalance
  totalStakeShares : t.totalStakeShares = s.totalStakeShares - s.sharePool.sharesForUp amount
  totalStakedBalance : t.totalStakedBalance =
    s.totalStakedBalance - s.sharePool.worth (s.sharePool.sharesForUp amount)

theorem innerUnstake_spec {s t : StakingContract} {env : Env} {amount : ℕ}
    (h : s.innerUnstake env amount = .ok t) : Unstaked s t env.predecessorAccountId amount := by
  simp only [innerUnstake, bind_eq_ok, ensure_eq_ok, pure_eq_ok, checkedAdd_eq_ok,
    numSharesFromStakedAmountRoundedUp_eq_ok, stakedAmountFromNumSharesRoundedDown_eq_ok,
    stakedAmountFromNumSharesRoundedUp_eq_ok] at h
  obtain ⟨-, -, -, hstaked, n, ⟨-, -, rfl⟩, -, hburnt, -, howned, receive, ⟨hshares, -, rfl⟩, -, -,
    epoch, ⟨-, rfl⟩, down, ⟨-, -, rfl⟩, rfl⟩ := h
  refine ⟨hstaked, hshares, hburnt, howned, ⟨env.epochHeight + NUM_EPOCHS_TO_UNLOCK,
    .of_save ?_ ?_ ?_⟩, ?_, ?_, ?_⟩ <;> simp [sharePool]

/-! ## Calls -/

/-- The ledger after the deposit of a call, where its method takes one. -/
def credited (s : StakingContract) (c : Call) : StakingContract :=
  if c.method.payable then (s.internalDeposit c.env).1 else s

/-- The amount that a call stakes. -/
def staking (s : StakingContract) (c : Call) : Option ℕ :=
  match c.method with
  | .depositAndStake => some c.env.attachedDeposit
  | .stakeAll => some (s.internalGetAccount c.env.predecessorAccountId).unstaked
  | .stake amount => some amount
  | _ => none

/-- The amount that a call unstakes. -/
def unstaking (s : StakingContract) (c : Call) : Option ℕ :=
  match c.method with
  | .unstakeAll =>
    some (s.sharePool.worth (s.internalGetAccount c.env.predecessorAccountId).stakeShares)
  | .unstake amount => some amount
  | _ => none

/-- What a call does after the ping. -/
inductive Acted (s : StakingContract) (c : Call) (t : StakingContract) : Prop
  /-- An owner's call, or nothing at all. -/
  | kept (hledger : SameLedger s t)
      (hfee : t.rewardFeeFraction = s.rewardFeeFraction ∨ t.rewardFeeFraction.Valid)
      (hstaking : staking s c = none) (hunstaking : unstaking s c = none)
  | deposited (hpayable : c.method.payable) (hstaking : staking s c = none)
      (hunstaking : unstaking s c = none) (h : t = credited s c)
  | withdrew (amount : ℕ) (promises : List Promise) (hstaking : staking s c = none)
      (hunstaking : unstaking s c = none)
      (h : s.internalWithdraw c.env amount = .ok (t, promises))
  | staked (amount : ℕ) (hstaking : staking s c = some amount) (hunstaking : unstaking s c = none)
      (h : (credited s c).internalStake c.env amount = .ok t)
  | unstaked (amount : ℕ) (hstaking : staking s c = none) (hunstaking : unstaking s c = some amount)
      (h : s.innerUnstake c.env amount = .ok t)

/-- What a successful call does, with the promises that it issues. -/
inductive Called (s : StakingContract) (c : Call) : StakingContract → List Promise → Prop
  /-- The callback of a stake promise. -/
  | answered (succeeded : Bool) (hmethod : c.method = .onStakeAction [succeeded]) :
    Called s c s (if succeeded = false ∧ 0 < c.env.accountLockedBalance
      then [.stake 0 s.stakePublicKey false] else [])
  | voted (votingAccountId : AccountId) (isVote : Bool)
      (hmethod : c.method = .vote votingAccountId isVote) :
    Called s c s [.vote votingAccountId isVote]
  /-- A ping, that may come with another fee. -/
  | pinged {u : StakingContract} {b : Bool} (rewardFeeFraction : RewardFeeFraction)
      (hping : s.internalPing c.env = .ok (u, b))
      (hfee : rewardFeeFraction = u.rewardFeeFraction ∨ rewardFeeFraction.Valid)
      (hstaking : staking u c = none) (hunstaking : unstaking u c = none) :
    Called s c { u with rewardFeeFraction }
      (if b then { u with rewardFeeFraction }.internalRestake else [])
  /-- The owner changes the key or resumes staking. -/
  | restaked {u : StakingContract} {b : Bool} (stakePublicKey : PublicKey) (paused : Bool)
      (hping : s.internalPing c.env = .ok (u, b)) (hpaused : paused = true → u.paused = true)
      (hstaking : staking u c = none) (hunstaking : unstaking u c = none) :
    Called s c { u with stakePublicKey, paused } { u with stakePublicKey, paused }.internalRestake
  | paused {u : StakingContract} {b : Bool} (hping : s.internalPing c.env = .ok (u, b))
      (hstaking : staking u c = none) (hunstaking : unstaking u c = none) :
    Called s c { u with paused := true } [.stake 0 u.stakePublicKey false]
  | deposited {u : StakingContract} {b : Bool} (hping : s.internalPing c.env = .ok (u, b))
      (hpayable : c.method.payable) (hstaking : staking u c = none)
      (hunstaking : unstaking u c = none) :
    Called s c (credited u c) (if b then (credited u c).internalRestake else [])
  | withdrew {u t : StakingContract} {b : Bool} (amount : ℕ) (promises : List Promise)
      (hping : s.internalPing c.env = .ok (u, b)) (hstaking : staking u c = none)
      (hunstaking : unstaking u c = none)
      (h : u.internalWithdraw c.env amount = .ok (t, promises)) :
    Called s c t (promises ++ if b then t.internalRestake else [])
  | staked {u t : StakingContract} {b : Bool} (amount : ℕ)
      (hping : s.internalPing c.env = .ok (u, b)) (hstaking : staking u c = some amount)
      (hunstaking : unstaking u c = none)
      (h : (credited u c).internalStake c.env amount = .ok t) : Called s c t t.internalRestake
  | unstaked {u t : StakingContract} {b : Bool} (amount : ℕ)
      (hping : s.internalPing c.env = .ok (u, b)) (hstaking : staking u c = none)
      (hunstaking : unstaking u c = some amount) (h : u.innerUnstake c.env amount = .ok t) :
    Called s c t t.internalRestake

/-- **What a call does**, method by method. -/
theorem called_of_call {s t : StakingContract} {c : Call} {promises : List Promise}
    (h : s.call c = .ok (t, promises)) : Called s c t promises := by
  obtain ⟨env, method⟩ := c
  obtain ⟨-, -, h⟩ := bind_eq_ok.mp h
  cases method with
  | ping =>
    obtain ⟨⟨u, b⟩, hu, h⟩ := bind_eq_ok.mp h
    obtain ⟨rfl, rfl⟩ := Prod.mk.inj (pure_eq_ok.mp h)
    exact .pinged u.rewardFeeFraction hu (.inl rfl) rfl rfl
  | deposit =>
    obtain ⟨⟨u, b⟩, hu, h⟩ := bind_eq_ok.mp h
    obtain ⟨rfl, rfl⟩ := Prod.mk.inj (pure_eq_ok.mp h)
    exact .deposited hu rfl rfl rfl
  | depositAndStake =>
    obtain ⟨⟨u, b⟩, hu, h⟩ := bind_eq_ok.mp h
    obtain ⟨v, hv, h⟩ := bind_eq_ok.mp h
    obtain ⟨rfl, rfl⟩ := Prod.mk.inj (pure_eq_ok.mp h)
    exact .staked _ hu rfl rfl hv
  | withdrawAll =>
    obtain ⟨⟨u, b⟩, hu, h⟩ := bind_eq_ok.mp h
    obtain ⟨⟨v, ps⟩, hv, h⟩ := bind_eq_ok.mp h
    obtain ⟨rfl, rfl⟩ := Prod.mk.inj (pure_eq_ok.mp h)
    exact .withdrew _ ps hu rfl rfl hv
  | withdraw amount =>
    obtain ⟨⟨u, b⟩, hu, h⟩ := bind_eq_ok.mp h
    obtain ⟨⟨v, ps⟩, hv, h⟩ := bind_eq_ok.mp h
    obtain ⟨rfl, rfl⟩ := Prod.mk.inj (pure_eq_ok.mp h)
    exact .withdrew amount ps hu rfl rfl hv
  | stakeAll =>
    obtain ⟨⟨u, b⟩, hu, h⟩ := bind_eq_ok.mp h
    obtain ⟨v, hv, h⟩ := bind_eq_ok.mp h
    obtain ⟨rfl, rfl⟩ := Prod.mk.inj (pure_eq_ok.mp h)
    exact .staked _ hu rfl rfl hv
  | stake amount =>
    obtain ⟨⟨u, b⟩, hu, h⟩ := bind_eq_ok.mp h
    obtain ⟨v, hv, h⟩ := bind_eq_ok.mp h
    obtain ⟨rfl, rfl⟩ := Prod.mk.inj (pure_eq_ok.mp h)
    exact .staked amount hu rfl rfl hv
  | unstakeAll =>
    obtain ⟨⟨u, b⟩, hu, h⟩ := bind_eq_ok.mp h
    obtain ⟨amount, hamount, h⟩ := bind_eq_ok.mp h
    obtain ⟨v, hv, h⟩ := bind_eq_ok.mp h
    obtain ⟨rfl, rfl⟩ := Prod.mk.inj (pure_eq_ok.mp h)
    obtain ⟨-, -, rfl⟩ := stakedAmountFromNumSharesRoundedDown_eq_ok.mp hamount
    exact .unstaked _ hu rfl rfl hv
  | unstake amount =>
    obtain ⟨⟨u, b⟩, hu, h⟩ := bind_eq_ok.mp h
    obtain ⟨v, hv, h⟩ := bind_eq_ok.mp h
    obtain ⟨rfl, rfl⟩ := Prod.mk.inj (pure_eq_ok.mp h)
    exact .unstaked amount hu rfl rfl hv
  | onStakeAction results =>
    obtain ⟨-, -, h⟩ := bind_eq_ok.mp h
    obtain ⟨_, hlength, h⟩ := bind_eq_ok.mp h
    obtain ⟨succeeded, rfl⟩ := List.length_eq_one_iff.mp (ensure_eq_ok.mp hlength)
    obtain ⟨rfl, rfl⟩ := Prod.mk.inj (pure_eq_ok.mp h)
    exact .answered succeeded rfl
  | updateStakingKey key =>
    obtain ⟨-, -, h⟩ := bind_eq_ok.mp h
    obtain ⟨⟨u, b⟩, hu, h⟩ := bind_eq_ok.mp h
    obtain ⟨rfl, rfl⟩ := Prod.mk.inj (pure_eq_ok.mp h)
    exact .restaked key u.paused hu id rfl rfl
  | updateRewardFeeFraction fraction =>
    obtain ⟨-, -, h⟩ := bind_eq_ok.mp h
    obtain ⟨_, hvalid, h⟩ := bind_eq_ok.mp h
    obtain ⟨⟨u, b⟩, hu, h⟩ := bind_eq_ok.mp h
    obtain ⟨rfl, rfl⟩ := Prod.mk.inj (pure_eq_ok.mp h)
    have hfee := RewardFeeFraction.assertValid_eq_ok.mp hvalid
    exact .pinged fraction hu (.inr hfee) rfl rfl
  | vote votingAccountId isVote =>
    obtain ⟨-, -, h⟩ := bind_eq_ok.mp h
    obtain ⟨-, -, h⟩ := bind_eq_ok.mp h
    obtain ⟨rfl, rfl⟩ := Prod.mk.inj (pure_eq_ok.mp h)
    exact .voted votingAccountId isVote rfl
  | pauseStaking =>
    obtain ⟨-, -, h⟩ := bind_eq_ok.mp h
    obtain ⟨-, -, h⟩ := bind_eq_ok.mp h
    obtain ⟨⟨u, b⟩, hu, h⟩ := bind_eq_ok.mp h
    obtain ⟨rfl, rfl⟩ := Prod.mk.inj (pure_eq_ok.mp h)
    exact .paused hu rfl rfl
  | resumeStaking =>
    obtain ⟨-, -, h⟩ := bind_eq_ok.mp h
    obtain ⟨-, -, h⟩ := bind_eq_ok.mp h
    obtain ⟨⟨u, b⟩, hu, h⟩ := bind_eq_ok.mp h
    obtain ⟨rfl, rfl⟩ := Prod.mk.inj (pure_eq_ok.mp h)
    exact .restaked u.stakePublicKey false hu (fun hpaused => by cases hpaused) rfl rfl

/-- A successful call is one of the two that never ping, or a ping followed by an action. -/
theorem call_cases {s t : StakingContract} {c : Call} (h : pool.step s c = .ok t) :
    (t = s ∧ staking s c = none ∧ unstaking s c = none) ∨
      ∃ u b, s.internalPing c.env = .ok (u, b) ∧ Acted u c t := by
  obtain ⟨⟨t', promises⟩, hcall, ht⟩ := bind_eq_ok.mp h
  obtain rfl := pure_eq_ok.mp ht
  cases called_of_call hcall with
  | answered succeeded hmethod => exact .inl ⟨rfl, by simp [staking, hmethod], by simp [unstaking, hmethod]⟩
  | voted id isVote hmethod => exact .inl ⟨rfl, by simp [staking, hmethod], by simp [unstaking, hmethod]⟩
  | pinged fee hping hfee hstaking hunstaking =>
    exact .inr ⟨_, _, hping, .kept ⟨rfl, rfl, rfl, rfl, rfl⟩ hfee hstaking hunstaking⟩
  | restaked key paused hping hpaused hstaking hunstaking =>
    exact .inr ⟨_, _, hping, .kept ⟨rfl, rfl, rfl, rfl, rfl⟩ (.inl rfl) hstaking hunstaking⟩
  | paused hping hstaking hunstaking =>
    exact .inr ⟨_, _, hping, .kept ⟨rfl, rfl, rfl, rfl, rfl⟩ (.inl rfl) hstaking hunstaking⟩
  | deposited hping hpayable hstaking hunstaking =>
    exact .inr ⟨_, _, hping, .deposited hpayable hstaking hunstaking rfl⟩
  | withdrew amount promises hping hstaking hunstaking h =>
    exact .inr ⟨_, _, hping, .withdrew amount promises hstaking hunstaking h⟩
  | staked amount hping hstaking hunstaking h =>
    exact .inr ⟨_, _, hping, .staked amount hstaking hunstaking h⟩
  | unstaked amount hping hstaking hunstaking h =>
    exact .inr ⟨_, _, hping, .unstaked amount hstaking hunstaking h⟩

end UncContracts.StakingPool
