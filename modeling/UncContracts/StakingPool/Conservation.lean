import UncContracts.StakingPool.SharePrice

/-!
# Conservation of the shares

The total of the stake shares is meant to be the shares of the accounts and the initial shares
that belong to nobody. Stakes and rewards keep it so. An unstake takes its shares off the total
and adds them to the caller's account, so a run conserves the shares exactly when it has no
successful unstake.

## Main definitions

* `Conserved`: the total is the shares of the accounts and the initial ones
* `SharesFit`: the additions to the total of the shares do not saturate

## Main results

* `conserved_iff_no_unstake`: a run conserves the shares exactly when nobody unstakes
* `not_conserved`: a stake and an unstake that lose the conservation
-/

namespace UncContracts.StakingPool

open Foundation StakingContract

/-- The stake shares of all accounts. -/
def accountShares (s : StakingContract) : ℕ := Map.total Account.stakeShares s.accounts

/-- The total of the stake shares is the shares of the accounts and the initial ones. -/
def Conserved (initial : ℕ) (s : StakingContract) : Prop :=
  s.totalStakeShares = accountShares s + initial

instance (initial : ℕ) (s : StakingContract) : Decidable (Conserved initial s) :=
  inferInstanceAs (Decidable (_ = _))

/-- The additions of a call to the total of the stake shares do not saturate. -/
def SharesFit (s : StakingContract) (c : Call) : Prop :=
  (s.lastEpochHeight ≠ c.env.epochHeight →
    s.totalStakeShares + s.feeShares (s.pendingReward c.env) ≤ u128Max) ∧
  AfterPing s c fun u => ∀ amount ∈ staking u c,
    u.totalStakeShares + u.sharePool.sharesFor amount ≤ u128Max

instance (s : StakingContract) (c : Call) : Decidable (SharesFit s c) :=
  inferInstanceAs (Decidable (_ ∧ _))

/-- The methods that unstake. -/
def Method.unstakes : Method → Bool
  | .unstakeAll | .unstake _ => true
  | _ => false

theorem unstaking_eq_none {s : StakingContract} {c : Call} :
    unstaking s c = none ↔ c.method.unstakes = false := by
  obtain ⟨env, method⟩ := c
  cases method <;> simp [unstaking, Method.unstakes]

/-! ## One update -/

section Update

variable {s t : StakingContract} {id : AccountId} {a : Account} {initial : ℕ}

theorem stakeShares_le_accountShares (s : StakingContract) (id : AccountId) :
    (s.internalGetAccount id).stakeShares ≤ accountShares s := counts_stakeShares.le_total s id

theorem Conserved.account_le (h : Conserved initial s) (id : AccountId) :
    (s.internalGetAccount id).stakeShares + initial ≤ s.totalStakeShares := by
  have hle := stakeShares_le_accountShares s id
  unfold Conserved at h
  omega

/-- Shares added to an account and to the total alike. -/
theorem Conserved.of_mint (hc : Conserved initial s) (h : Updates s t id a) {n : ℕ}
    (ha : a.stakeShares = (s.internalGetAccount id).stakeShares + n)
    (ht : t.totalStakeShares = s.totalStakeShares + n) : Conserved initial t := by
  have htotal := h.total _ counts_stakeShares
  have hle := stakeShares_le_accountShares s id
  unfold Conserved accountShares at *
  omega

theorem Conserved.of_sameLedger (hc : Conserved initial s) (h : SameLedger s t) :
    Conserved initial t := by
  unfold Conserved accountShares at *
  rw [h.totalStakeShares, h.accounts]
  exact hc

theorem Conserved.of_rewarded (hc : Conserved initial s) {reward : ℕ} (h : Rewarded s t reward)
    (hfit : s.totalStakeShares + s.feeShares reward ≤ u128Max) : Conserved initial t := by
  have hle := hc.account_le s.ownerId
  refine hc.of_mint h.updates (n := s.feeShares reward) ?_ ?_
  · exact mint_of_le (by omega)
  · rw [h.totalStakeShares, mint_of_le hfit]

theorem Conserved.of_staked (hc : Conserved initial s) {amount : ℕ} (h : Staked s t id amount)
    (hfit : s.totalStakeShares + s.sharePool.sharesFor amount ≤ u128Max) : Conserved initial t := by
  have hle := hc.account_le id
  refine hc.of_mint h.updates (n := s.sharePool.sharesFor amount) ?_ ?_
  · exact saturatingAdd_of_le (by omega)
  · rw [h.totalStakeShares, saturatingAdd_of_le hfit]

/-- An unstake raises the caller's shares by what it takes off the total. -/
theorem Unstaked.not_conserved {amount : ℕ} (h : Unstaked s t id amount) (hs : Sound s)
    (hc : Conserved initial s) : ¬ Conserved initial t := by
  intro ht
  obtain ⟨epoch, hup⟩ := h.updates
  have htotal := hup.total _ counts_stakeShares
  have hle := stakeShares_le_accountShares s id
  have hpos := h.shares_pos
  have hburnt := h.burnt_pos
  have hraised := le_saturatingAdd (s.sharePool.sharesForUp amount) (hs.account id)
  have hshares := h.totalStakeShares
  unfold Conserved accountShares at *
  simp only at htotal
  omega

theorem credited_conserved (hc : Conserved initial s) (c : Call) :
    Conserved initial (credited s c) := by
  unfold credited
  split
  · obtain ⟨hup, -, hpool⟩ := internalDeposit_spec s c.env
    exact hc.of_mint hup (n := 0) rfl (congrArg SharePool.shares hpool)
  · exact hc

end Update

/-! ## Calls and runs -/

section Runs

variable {s t u : StakingContract} {c : Call} {initial : ℕ}

theorem Conserved.internalPing (hc : Conserved initial s) {env : Env} {b : Bool}
    (h : s.internalPing env = .ok (u, b))
    (hfit : s.lastEpochHeight ≠ env.epochHeight →
      s.totalStakeShares + s.feeShares (s.pendingReward env) ≤ u128Max) : Conserved initial u := by
  rcases internalPing_cases h with ⟨hledger, -⟩ | ⟨hepoch, -, -, hreward⟩
  · exact hc.of_sameLedger hledger
  · exact hc.of_rewarded hreward (hfit hepoch)

theorem Conserved.acted (hc : Conserved initial u) (h : Acted u c t)
    (hunstakes : c.method.unstakes = false)
    (hfit : ∀ amount ∈ staking u c,
      u.totalStakeShares + u.sharePool.sharesFor amount ≤ u128Max) : Conserved initial t := by
  have hnone := unstaking_eq_none (s := u).mpr hunstakes
  cases h with
  | kept hledger _ _ _ => exact hc.of_sameLedger hledger
  | deposited _ _ _ h => exact h ▸ credited_conserved hc c
  | withdrew amount promises _ _ h =>
    obtain ⟨-, -, hup, -, hpool⟩ := internalWithdraw_spec h
    exact hc.of_mint hup (n := 0) rfl (congrArg SharePool.shares hpool)
  | staked amount hstaking _ h =>
    refine (credited_conserved hc c).of_staked (internalStake_spec h) ?_
    simpa using hfit amount hstaking
  | unstaked amount _ hunstaking _ =>
    rw [hnone] at hunstaking
    cases hunstaking

/-- A call that does not unstake conserves the shares. -/
theorem Conserved.step (hc : Conserved initial s) (hfit : SharesFit s c)
    (hunstakes : c.method.unstakes = false) (h : pool.step s c = .ok t) : Conserved initial t := by
  rcases call_cases h with ⟨rfl, -, -⟩ | ⟨u, b, hu, hact⟩
  · exact hc
  · exact (hc.internalPing hu hfit.1).acted hact hunstakes (hfit.2.apply hu)

/-- A successful unstake does not. -/
theorem Conserved.not_step (hc : Conserved initial s) (hs : Sound s) (hfit : SharesFit s c)
    (hunstakes : c.method.unstakes = true) (h : pool.step s c = .ok t) :
    ¬ Conserved initial t := by
  have hsome : ∀ u, unstaking u c ≠ none := by
    intro u hnone
    rw [unstaking_eq_none.mp hnone] at hunstakes
    cases hunstakes
  rcases call_cases h with ⟨-, -, hnone⟩ | ⟨u, b, hu, hact⟩
  · exact absurd hnone (hsome s)
  · have hcu := hc.internalPing hu hfit.1
    have hsu := hs.internalPing hu
    cases hact with
    | kept _ _ _ hnone => exact absurd hnone (hsome u)
    | deposited _ _ hnone _ => exact absurd hnone (hsome u)
    | withdrew _ _ _ hnone _ => exact absurd hnone (hsome u)
    | staked _ _ hnone _ => exact absurd hnone (hsome u)
    | unstaked amount _ _ h => exact (innerUnstake_spec h).not_conserved hsu hcu

theorem Fresh.conserved (h : Fresh s) : Conserved s.totalStakeShares s := by
  simp [Conserved, accountShares, h.accounts]

/-- The shares are conserved in every state of a run without unstakes. -/
theorem conserved_run (h : Deployed s) {calls : List Call}
    (hfit : ∀ x ∈ pool.steps s calls, SharesFit x.before x.label)
    (hno : ∀ x ∈ pool.steps s calls, x.label.method.unstakes = false) :
    Conserved s.totalStakeShares (pool.run s calls) := by
  refine Machine.run_invariant (M := pool)
    (G := fun a c => SharesFit a c ∧ c.method.unstakes = false) ?_ ?_ h.fresh.conserved
  · intro a c b ha hG hstep
    exact ha.step hG.1 hG.2 hstep
  · intro x hx
    exact ⟨hfit x hx, hno x hx⟩

end Runs

/-- In a run whose totals do not saturate, every state conserves the shares if and only if no
step of the run is an unstake. -/
theorem conserved_iff_no_unstake (s : StakingContract) (h : Deployed s) (calls : List Call)
    (hfit : ∀ x ∈ pool.steps s calls, SharesFit x.before x.label) :
    (∀ pre, pre <+: calls → Conserved s.totalStakeShares (pool.run s pre)) ↔
      ∀ x ∈ pool.steps s calls, x.label.method.unstakes = false := by
  constructor
  · intro hall x hx
    obtain ⟨pre, post, hcalls, hbefore, hstep⟩ := Machine.mem_steps_iff.mp hx
    by_contra hunstakes
    have hc := hall pre (hcalls ▸ List.prefix_append _ _)
    rw [← hbefore] at hc
    have hs := sound_run h pre
    rw [← hbefore] at hs
    refine hc.not_step hs (hfit x hx) (by simpa using hunstakes) hstep ?_
    have hnext := hall (pre ++ [x.label]) ⟨post, by rw [hcalls]; simp⟩
    rwa [Machine.run_append, ← hbefore, Machine.run_cons, Machine.exec_of_ok hstep] at hnext
  · intro hno pre hpre
    exact conserved_run h (Machine.guard_of_prefix hpre hfit) (Machine.guard_of_prefix hpre hno)

theorem conserved_iff_smallPool :
    (∀ pre, pre <+: [(⟨smallEnv "alice" 10, .depositAndStake⟩ : Call)] →
        Conserved 10 (pool.run smallPool pre)) ↔
      ∀ x ∈ pool.steps smallPool [⟨smallEnv "alice" 10, .depositAndStake⟩],
        x.label.method.unstakes = false :=
  conserved_iff_no_unstake smallPool deployed_smallPool [⟨smallEnv "alice" 10, .depositAndStake⟩]
    (by decide)

/-- Alice stakes ten tokens and unstakes them: the ten shares leave the total, and her account
holds twenty. -/
theorem not_conserved :
    ¬ ∀ s, Deployed s → ∀ calls, Conserved s.totalStakeShares (pool.run s calls) := by
  intro h
  have hrun := h smallPool deployed_smallPool
    [⟨smallEnv "alice" 10, .depositAndStake⟩, ⟨smallEnv "alice" 0, .unstake 10⟩]
  revert hrun
  decide

end UncContracts.StakingPool
