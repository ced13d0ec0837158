import UncContracts.StakingPool.Conservation

/-!
# Solvency of the pool

The claims of the delegators are their unstaked balances and the worth of their shares. Every
stake may cost the guarantee fund one token, so after `k` actions the claims exceed the recorded
balance less the fund by at most `k`. This rests on the conservation of the shares, and an unstake,
which leaves its shares with the caller, loses it.

## Main definitions

* `delegatorClaims`: what the accounts may claim
* `NoSaturation`: no `u128` addition of a call saturates
* `shareActions`: the number of successful stakes and unstakes
* `Solvent`: the claims are backed but for one token an action

## Main results

* `solvent_of_no_unstake`: runs without unstakes are solvent
* `not_solvent`: a stake and an unstake that make the pool insolvent
-/

namespace UncContracts.StakingPool

open Foundation StakingContract

/-- What the accounts may claim: the unstaked balances and the worth of the shares. -/
def delegatorClaims (s : StakingContract) : ℕ :=
  Map.total (fun a => a.unstaked + s.sharePool.worth a.stakeShares) s.accounts

/-- The unstaked balances of all accounts. -/
def accountUnstaked (s : StakingContract) : ℕ := Map.total Account.unstaked s.accounts

/-- The additions of a call to the recorded balance and to the accounts do not saturate. -/
def AccountsFit (s : StakingContract) (c : Call) : Prop :=
  (s.lastEpochHeight ≠ c.env.epochHeight →
    c.env.accountLockedBalance + c.env.accountBalance ≤ u128Max ∧
    (s.internalGetAccount s.ownerId).stakeShares + s.feeShares (s.pendingReward c.env) ≤ u128Max) ∧
  AfterPing s c fun u =>
    let account := u.internalGetAccount c.env.predecessorAccountId
    (c.method.payable → u.lastTotalBalance + c.env.attachedDeposit ≤ u128Max ∧
      account.unstaked + c.env.attachedDeposit ≤ u128Max) ∧
    (∀ amount ∈ staking u c, account.stakeShares + u.sharePool.sharesFor amount ≤ u128Max) ∧
    ∀ amount ∈ unstaking u c,
      account.stakeShares + u.sharePool.sharesForUp amount ≤ u128Max ∧
      account.unstaked + u.sharePool.worthUp (u.sharePool.sharesForUp amount) ≤ u128Max

instance (s : StakingContract) (c : Call) : Decidable (AccountsFit s c) :=
  inferInstanceAs (Decidable (_ ∧ _))

/-- No addition of a call saturates. -/
structure NoSaturation (s : StakingContract) (c : Call) : Prop where
  staked : StakedFits s c
  shares : SharesFit s c
  accounts : AccountsFit s c

instance (s : StakingContract) (c : Call) : Decidable (NoSaturation s c) :=
  decidable_of_iff (StakedFits s c ∧ SharesFit s c ∧ AccountsFit s c)
    ⟨fun h => ⟨h.1, h.2.1, h.2.2⟩, fun h => ⟨h.staked, h.shares, h.accounts⟩⟩

/-- The methods that stake or unstake. -/
def Method.movesShares : Method → Bool
  | .depositAndStake | .stakeAll | .stake _ | .unstakeAll | .unstake _ => true
  | _ => false

/-- The number of successful stake and unstake actions of a run. -/
def shareActions (s : StakingContract) (calls : List Call) : ℕ :=
  (pool.steps s calls).countP fun x => x.label.method.movesShares

/-- After `k` actions the claims are backed by the recorded balance less the fund, but for `k`. -/
def Solvent (k : ℕ) (s : StakingContract) : Prop :=
  delegatorClaims s + STAKE_SHARE_PRICE_GUARANTEE_FUND ≤ s.lastTotalBalance + k

instance (k : ℕ) (s : StakingContract) : Decidable (Solvent k s) :=
  inferInstanceAs (Decidable (_ ≤ _))

/-! ## The invariant -/

/-- After `k` actions the unstaked balances and the staked one are backed. -/
def Backed (k : ℕ) (s : StakingContract) : Prop :=
  accountUnstaked s + s.totalStakedBalance + STAKE_SHARE_PRICE_GUARANTEE_FUND ≤
    s.lastTotalBalance + k

section Invariant

variable {s t u : StakingContract} {c : Call} {k initial : ℕ}

/-- The claims are at most the unstaked balances and the staked one. -/
theorem delegatorClaims_le (hc : Conserved initial s) :
    delegatorClaims s ≤ accountUnstaked s + s.totalStakedBalance := by
  have hshares : accountShares s ≤ s.sharePool.shares := by
    show accountShares s ≤ s.totalStakeShares
    unfold Conserved at hc
    omega
  unfold delegatorClaims
  rw [Map.total_add Account.unstaked, Map.total_comp s.sharePool.worth Account.stakeShares]
  refine Nat.add_le_add_left ?_ _
  exact (s.sharePool.sum_worth_le _).trans (SharePool.worth_le_assets hshares)

theorem Backed.solvent (h : Backed k s) (hc : Conserved initial s) : Solvent k s := by
  have hle := delegatorClaims_le hc
  unfold Backed at h
  unfold Solvent
  omega

theorem Backed.mono (h : Backed k s) {m : ℕ} (hm : k ≤ m) : Backed m s := by
  unfold Backed at *
  omega

theorem Backed.of_sameLedger (h : Backed k s) (hledger : SameLedger s t) : Backed k t := by
  unfold Backed accountUnstaked at *
  rw [hledger.accounts, hledger.totalStakedBalance, hledger.lastTotalBalance]
  exact h

/-- A reward is staked, by its parts. -/
theorem Backed.of_rewarded (h : Backed k s) (hfee : s.rewardFeeFraction.Valid) {reward : ℕ}
    (hr : Rewarded s t reward) (hbalance : t.lastTotalBalance = s.lastTotalBalance + reward) :
    Backed k t := by
  have hfeele := ownersFee_le hfee reward
  have htotal : accountUnstaked t + (s.internalGetAccount s.ownerId).unstaked =
      accountUnstaked s + (s.internalGetAccount s.ownerId).unstaked :=
    hr.updates.total _ counts_unstaked
  have hassets : (s.rewardedPool reward).assets ≤
      s.totalStakedBalance + (reward - s.ownersFee reward) := saturatingAdd_le_add _ _
  have hstaked : t.totalStakedBalance ≤ (s.rewardedPool reward).assets + s.ownersFee reward := by
    rw [hr.totalStakedBalance]
    exact saturatingAdd_le_add _ _
  unfold Backed at *
  omega

theorem Backed.credited (h : Backed k s) (c : Call)
    (hfit : c.method.payable → s.lastTotalBalance + c.env.attachedDeposit ≤ u128Max) :
    Backed k (credited s c) := by
  unfold StakingPool.credited
  split
  · rename_i hpayable
    obtain ⟨hup, hbalance, hpool⟩ := internalDeposit_spec s c.env
    have htotal : accountUnstaked (s.internalDeposit c.env).1 +
        (s.internalGetAccount c.env.predecessorAccountId).unstaked = accountUnstaked s +
        saturatingAdd (s.internalGetAccount c.env.predecessorAccountId).unstaked
          c.env.attachedDeposit := hup.total _ counts_unstaked
    have hle := saturatingAdd_le_add (s.internalGetAccount c.env.predecessorAccountId).unstaked
      c.env.attachedDeposit
    have hstaked : (s.internalDeposit c.env).1.totalStakedBalance = s.totalStakedBalance :=
      congrArg SharePool.assets hpool
    rw [saturatingAdd_of_le (hfit hpayable)] at hbalance
    unfold Backed at *
    omega
  · exact h

theorem Backed.of_withdrawn (h : Backed k s) {env : Env} {amount : ℕ} {promises : List Promise}
    (hw : s.internalWithdraw env amount = .ok (t, promises)) : Backed k t := by
  obtain ⟨-, hle, hup, hbalance, hpool⟩ := internalWithdraw_spec hw
  have htotal : accountUnstaked t + (s.internalGetAccount env.predecessorAccountId).unstaked =
      accountUnstaked s + ((s.internalGetAccount env.predecessorAccountId).unstaked - amount) :=
    hup.total _ counts_unstaked
  have hstaked : t.totalStakedBalance = s.totalStakedBalance := congrArg SharePool.assets hpool
  unfold Backed at *
  omega

/-- The charge is rounded down and the stake up: the fund pays at most one token. -/
theorem Backed.of_staked (h : Backed k s) {p : AccountId} {amount : ℕ}
    (hs : Staked s t p amount) : Backed (k + 1) t := by
  have hcharged := hs.charged
  have hround := SharePool.worthUp_le_worth_add_one (p := s.sharePool)
    (s.sharePool.sharesFor amount) hs.shares_pos
  have htotal : accountUnstaked t + (s.internalGetAccount p).unstaked = accountUnstaked s +
      ((s.internalGetAccount p).unstaked - s.sharePool.worth (s.sharePool.sharesFor amount)) :=
    hs.updates.total _ counts_unstaked
  have hstaked : t.totalStakedBalance ≤
      s.totalStakedBalance + s.sharePool.worthUp (s.sharePool.sharesFor amount) := by
    rw [hs.totalStakedBalance]
    exact saturatingAdd_le_add _ _
  have hbalance := hs.lastTotalBalance
  unfold Backed at *
  omega

/-! ## Calls and runs -/

theorem Backed.internalPing (h : Backed k s) (hfee : s.rewardFeeFraction.Valid) {env : Env}
    {b : Bool} (hu : s.internalPing env = .ok (u, b)) : Backed k u := by
  rcases internalPing_cases hu with ⟨hledger, -⟩ | ⟨-, -, hbalance, hreward⟩
  · exact h.of_sameLedger hledger
  · exact h.of_rewarded hfee hreward hbalance

theorem movesShares_of_staking {amount : ℕ} (h : staking s c = some amount) :
    c.method.movesShares = true := by
  obtain ⟨env, method⟩ := c
  cases method <;> simp_all [staking, Method.movesShares]

/-- What a call adds to the number of actions. -/
def Method.cost (m : Method) : ℕ := if m.movesShares then 1 else 0

/-- A call that does not unstake costs the fund at most one token, if it stakes. -/
theorem Backed.step (h : Backed k s) (hfee : s.rewardFeeFraction.Valid) (hfit : AccountsFit s c)
    (hunstakes : c.method.unstakes = false) (hstep : pool.step s c = .ok t) :
    Backed (k + c.method.cost) t := by
  rcases call_cases hstep with ⟨rfl, -, -⟩ | ⟨u, b, hu, hact⟩
  · exact h.mono (Nat.le_add_right _ _)
  · have hbu := h.internalPing hfee hu
    have hpaid := (hfit.2.apply hu).1
    cases hact with
    | kept hledger _ _ _ => exact (hbu.of_sameLedger hledger).mono (Nat.le_add_right _ _)
    | deposited _ _ _ ht =>
      rw [ht]
      exact (hbu.credited c fun hpay => (hpaid hpay).1).mono (Nat.le_add_right _ _)
    | withdrew amount promises _ _ hw => exact (hbu.of_withdrawn hw).mono (Nat.le_add_right _ _)
    | staked amount hstaking _ hs =>
      have hcost : c.method.cost = 1 := if_pos (movesShares_of_staking hstaking)
      rw [hcost]
      exact (hbu.credited c fun hpay => (hpaid hpay).1).of_staked (internalStake_spec hs)
    | unstaked amount _ hunstaking _ =>
      rw [unstaking_eq_none.mpr hunstakes] at hunstaking
      cases hunstaking

theorem Fresh.backed (h : Fresh s) (hfund : STAKE_SHARE_PRICE_GUARANTEE_FUND ≤ s.lastTotalBalance) :
    Backed 0 s := by
  have hstaked := h.staked
  have hnone : accountUnstaked s = 0 := by simp [accountUnstaked, h.accounts]
  unfold Backed
  omega

/-- The balances are backed in every state of a run without unstakes. -/
theorem backed_run (h : Deployed s)
    (hfund : STAKE_SHARE_PRICE_GUARANTEE_FUND ≤ s.lastTotalBalance) {calls : List Call}
    (hfit : ∀ x ∈ pool.steps s calls, NoSaturation x.before x.label)
    (hno : ∀ x ∈ pool.steps s calls, x.label.method.unstakes = false) :
    Backed (shareActions s calls) (pool.run s calls) := by
  -- The number of actions is counted along the steps so far.
  have hrun := Machine.run_induction (M := pool) (s := s)
    (P := fun hist a => (∀ x ∈ hist, NoSaturation x.before x.label ∧
        x.label.method.unstakes = false) →
      Sound a ∧ Backed (hist.countP fun x => x.label.method.movesShares) a)
    (fun _ => ⟨.of_fresh h.fresh, h.fresh.backed hfund⟩) ?_ calls
  · exact (hrun fun x hx => ⟨hfit x hx, hno x hx⟩).2
  · intro hist a c b ih hstep hall
    obtain ⟨hsound, hbacked⟩ := ih fun x hx => hall x (by simp [hx])
    obtain ⟨hsat, hunstakes⟩ := hall ⟨a, c, b⟩ (by simp)
    refine ⟨hsound.step hstep, ?_⟩
    have hnext := hbacked.step hsound.fee hsat.accounts hunstakes hstep
    rwa [List.countP_append, List.countP_singleton]

end Invariant

/-- In a run without unstakes every state is solvent: after `k` actions the claims of the
delegators exceed the recorded balance less the fund by at most `k`, and while the fund lasts the
recorded balance backs them. -/
theorem solvent_of_no_unstake (s : StakingContract) (h : Deployed s)
    (hfund : STAKE_SHARE_PRICE_GUARANTEE_FUND ≤ s.lastTotalBalance) (calls : List Call)
    (hfit : ∀ x ∈ pool.steps s calls, NoSaturation x.before x.label)
    (hno : ∀ x ∈ pool.steps s calls, x.label.method.unstakes = false) :
    ∀ pre, pre <+: calls →
      Solvent (shareActions s pre) (pool.run s pre) ∧
      (shareActions s pre ≤ 1000000000000 →
        delegatorClaims (pool.run s pre) ≤ (pool.run s pre).lastTotalBalance) := by
  intro pre hpre
  have hfit' := Machine.guard_of_prefix hpre hfit
  have hno' := Machine.guard_of_prefix hpre hno
  have hconserved := conserved_run h (fun x hx => (hfit' x hx).shares) hno'
  have hsolvent := (backed_run h hfund hfit' hno').solvent hconserved
  refine ⟨hsolvent, ?_⟩
  intro hk
  unfold Solvent STAKE_SHARE_PRICE_GUARANTEE_FUND at hsolvent
  omega

theorem solvent_smallPool :
    let calls : List Call := [⟨smallEnv "alice" 10, .depositAndStake⟩]
    Solvent (shareActions smallPool calls) (pool.run smallPool calls) ∧
      (shareActions smallPool calls ≤ 1000000000000 →
        delegatorClaims (pool.run smallPool calls) ≤ (pool.run smallPool calls).lastTotalBalance) :=
  solvent_of_no_unstake smallPool deployed_smallPool (by decide)
    [⟨smallEnv "alice" 10, .depositAndStake⟩] (by decide) (by decide) _ List.prefix_rfl

/-- Alice stakes ten tokens and unstakes them: she may claim ten unstaked tokens and twenty of
the ten that are staked. -/
theorem not_solvent :
    ¬ ∀ s, Deployed s → STAKE_SHARE_PRICE_GUARANTEE_FUND ≤ s.lastTotalBalance → ∀ calls,
      (∀ x ∈ pool.steps s calls, NoSaturation x.before x.label) →
      Solvent (shareActions s calls) (pool.run s calls) := by
  intro h
  have hrun := h smallPool deployed_smallPool (by decide)
    [⟨smallEnv "alice" 10, .depositAndStake⟩, ⟨smallEnv "alice" 0, .unstake 10⟩] (by decide)
  revert hrun
  decide

end UncContracts.StakingPool
