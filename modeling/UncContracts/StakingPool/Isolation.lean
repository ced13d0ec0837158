import UncContracts.StakingPool.SharePrice

/-!
# Isolation of the delegators

A call changes the account of its caller and, by a reward, the owner's. What another delegator
holds stays, and is worth no less as long as shares remain. An account may hold more shares than
there are, since an unstake leaves its shares with the caller; burning all shares freezes every
delegator, and nothing else harms them.

## Main definitions

* `Isolated`: what a call keeps for a delegator
* `LeavesShare`: an unstake is worth at most all but one of the shares

## Main results

* `isolated_iff_leavesShare`: a step of a run isolates the other delegators exactly when it leaves
  a share
* `not_isolated`: a run in which a delegator burns the shares of another
-/

namespace UncContracts.StakingPool

open Foundation StakingContract

/-- From `s` to `t` the delegator `q` keeps what it has: the unstaked balance, the shares, which
only the owner's reward raises, and the worth of the shares. -/
structure Isolated (s t : StakingContract) (q : AccountId) : Prop where
  unstaked : (t.internalGetAccount q).unstaked = (s.internalGetAccount q).unstaked
  stakeShares : (t.internalGetAccount q).stakeShares = (s.internalGetAccount q).stakeShares ∨
    q = s.ownerId ∧ (s.internalGetAccount q).stakeShares ≤ (t.internalGetAccount q).stakeShares
  worth : 0 < s.totalStakeShares → 0 < t.totalStakeShares ∧
    s.sharePool.worth (s.internalGetAccount q).stakeShares ≤
      t.sharePool.worth (t.internalGetAccount q).stakeShares

/-- What a call unstakes is worth at most all but one of the shares. -/
def LeavesShare (s : StakingContract) (c : Call) : Prop :=
  AfterPing s c fun u => ∀ amount ∈ unstaking u c,
    u.totalStakeShares * amount ≤ u.totalStakedBalance * (u.totalStakeShares - 1)

instance (s : StakingContract) (c : Call) : Decidable (LeavesShare s c) :=
  inferInstanceAs (Decidable (AfterPing _ _ _))

section Isolation

variable {s t u : StakingContract} {c : Call} {q : AccountId}

theorem Isolated.refl (s : StakingContract) (q : AccountId) : Isolated s s q :=
  ⟨rfl, .inl rfl, fun h => ⟨h, le_rfl⟩⟩

theorem Isolated.trans (h₁ : Isolated s u q) (h₂ : Isolated u t q) (howner : u.ownerId = s.ownerId) :
    Isolated s t q := by
  refine ⟨h₂.unstaked.trans h₁.unstaked, ?_, ?_⟩
  · rcases h₁.stakeShares with he₁ | ⟨hq, hle₁⟩
    · rcases h₂.stakeShares with he₂ | ⟨hq, hle₂⟩
      · exact .inl (he₂.trans he₁)
      · exact .inr ⟨howner ▸ hq, he₁ ▸ hle₂⟩
    · rcases h₂.stakeShares with he₂ | ⟨-, hle₂⟩
      · exact .inr ⟨hq, he₂ ▸ hle₁⟩
      · exact .inr ⟨hq, hle₁.trans hle₂⟩
  · intro hpos
    obtain ⟨hu, hworth₁⟩ := h₁.worth hpos
    obtain ⟨ht, hworth₂⟩ := h₂.worth hu
    exact ⟨ht, hworth₁.trans hworth₂⟩

theorem Isolated.of_sameLedger (h : SameLedger s t) : Isolated s t q := by
  refine ⟨by rw [h.internalGetAccount], .inl (by rw [h.internalGetAccount]), ?_⟩
  intro hpos
  rw [h.totalStakeShares, h.sharePool, h.internalGetAccount]
  exact ⟨hpos, le_rfl⟩

/-- An update of another account that does not lower the price of existing shares. -/
theorem Isolated.of_updates {id : AccountId} {a : Account} (h : Updates s t id a) (hq : q ≠ id)
    (hprice : s.sharePool.PriceLE t.sharePool) (hleft : 0 < t.totalStakeShares) :
    Isolated s t q := by
  have hkept := h.other q hq
  refine ⟨by rw [hkept], .inl (by rw [hkept]), ?_⟩
  intro hpos
  rw [hkept]
  exact ⟨hleft, SharePool.worth_le_of_priceLE hprice hpos hleft _⟩

/-- A reward keeps every account but for the owner's new shares. -/
theorem Isolated.of_rewarded (hs : Sound s) {reward : ℕ} (h : Rewarded s t reward)
    (hfit : s.totalStakedBalance + reward ≤ u128Max) : Isolated s t q := by
  have hprice := h.priceLE hs.fee hfit
  have hmore : (s.internalGetAccount q).stakeShares ≤ (t.internalGetAccount q).stakeShares ∧
      (t.internalGetAccount q).unstaked = (s.internalGetAccount q).unstaked ∧
      (q ≠ s.ownerId →
        (t.internalGetAccount q).stakeShares = (s.internalGetAccount q).stakeShares) := by
    by_cases hq : q = s.ownerId
    · rw [hq, h.updates.own _ counts_stakeShares, h.updates.own _ counts_unstaked]
      exact ⟨le_mint _ (hs.account _), rfl, fun hne => absurd rfl hne⟩
    · rw [h.updates.other q hq]
      exact ⟨le_rfl, rfl, fun _ => rfl⟩
  obtain ⟨hle, hunstaked, hother⟩ := hmore
  refine ⟨hunstaked, ?_, ?_⟩
  · by_cases hq : q = s.ownerId
    · exact .inr ⟨hq, hle⟩
    · exact .inl (hother hq)
  · intro hpos
    have hleft : 0 < t.totalStakeShares := by
      rw [h.totalStakeShares]
      exact hpos.trans_le (le_mint _ hs.shares)
    refine ⟨hleft, ?_⟩
    exact (SharePool.worth_le_of_priceLE hprice hpos hleft _).trans (SharePool.worth_mono _ hle)

theorem Isolated.internalPing (hs : Sound s) {env : Env} {b : Bool}
    (h : s.internalPing env = .ok (u, b))
    (hfit : s.lastEpochHeight ≠ env.epochHeight →
      s.totalStakedBalance + s.pendingReward env ≤ u128Max) : Isolated s u q := by
  rcases internalPing_cases h with ⟨hledger, -⟩ | ⟨hepoch, -, -, hreward⟩
  · exact .of_sameLedger hledger
  · exact .of_rewarded hs hreward (hfit hepoch)

theorem internalPing_ownerId {env : Env} {b : Bool} (h : s.internalPing env = .ok (u, b)) :
    u.ownerId = s.ownerId := by
  rcases internalPing_cases h with ⟨hledger, -⟩ | ⟨-, -, -, hreward⟩
  · exact hledger.ownerId
  · exact hreward.updates.ownerId

/-- Without shares a reward mints none. -/
theorem internalPing_shares_pos {env : Env} {b : Bool} (h : s.internalPing env = .ok (u, b))
    (hpos : 0 < u.totalStakeShares) : 0 < s.totalStakeShares := by
  rcases internalPing_cases h with ⟨hledger, -⟩ | ⟨-, -, -, hreward⟩
  · rwa [← hledger.totalStakeShares]
  · by_contra hnone
    have hzero : s.totalStakeShares = 0 := by omega
    rw [hreward.totalStakeShares, hzero] at hpos
    simp [mint, feeShares, SharePool.sharesFor, rewardedPool, hzero] at hpos

theorem Isolated.credited (s : StakingContract) {c : Call}
    (hq : q ≠ c.env.predecessorAccountId) : Isolated s (credited s c) q := by
  unfold StakingPool.credited
  split
  · obtain ⟨hup, -, hpool⟩ := internalDeposit_spec s c.env
    have hkept := hup.other q hq
    refine ⟨by rw [hkept], .inl (by rw [hkept]), ?_⟩
    intro hpos
    rw [hkept, hpool]
    exact ⟨hpos.trans_eq (congrArg SharePool.shares hpool).symm, le_rfl⟩
  · exact .refl s q

/-- An unstake leaves a share exactly when it is worth at most all but one of them. -/
theorem Unstaked.shares_pos_iff {p : AccountId} {amount : ℕ} (h : Unstaked s t p amount) :
    0 < t.totalStakeShares ↔
      s.totalStakeShares * amount ≤ s.totalStakedBalance * (s.totalStakeShares - 1) := by
  have hiff : s.totalStakeShares ≤ s.sharePool.sharesForUp amount ↔
      s.totalStakedBalance * (s.totalStakeShares - 1) < s.totalStakeShares * amount :=
    SharePool.shares_le_sharesForUp_iff (p := s.sharePool) amount h.staked_pos h.shares_pos
  rw [h.totalStakeShares]
  omega

theorem Isolated.acted (h : Acted u c t) (hq : q ≠ c.env.predecessorAccountId)
    (hfit : ∀ amount ∈ staking u c,
      u.totalStakedBalance + u.sharePool.worthUp (u.sharePool.sharesFor amount) ≤ u128Max)
    (hleaves : ∀ amount ∈ unstaking u c,
      u.totalStakeShares * amount ≤ u.totalStakedBalance * (u.totalStakeShares - 1)) :
    Isolated u t q := by
  cases h with
  | kept hledger _ _ _ => exact .of_sameLedger hledger
  | deposited _ _ _ h => exact h ▸ .credited u hq
  | withdrew amount promises _ _ h =>
    obtain ⟨-, -, hup, -, hpool⟩ := internalWithdraw_spec h
    have hkept := hup.other q hq
    refine ⟨by rw [hkept], .inl (by rw [hkept]), ?_⟩
    intro hpos
    rw [hkept, hpool]
    exact ⟨hpos.trans_eq (congrArg SharePool.shares hpool).symm, le_rfl⟩
  | staked amount hstaking _ h =>
    have hspec := internalStake_spec h
    have hprice := hspec.priceLE (by simpa using hfit amount hstaking)
    have hleft : 0 < t.totalStakeShares := by
      rw [hspec.totalStakeShares]
      have hminted := hspec.minted_pos
      unfold saturatingAdd u128Max
      omega
    have hcredited : (StakingPool.credited u c).ownerId = u.ownerId := by
      unfold StakingPool.credited
      split
      · exact (internalDeposit_spec u c.env).1.ownerId
      · rfl
    exact (Isolated.credited u hq).trans (.of_updates hspec.updates hq hprice hleft) hcredited
  | unstaked amount _ hunstaking h =>
    have hspec := innerUnstake_spec h
    have hleft := hspec.shares_pos_iff.mpr (hleaves amount hunstaking)
    obtain ⟨epoch, hup⟩ := hspec.updates
    exact .of_updates hup hq hspec.priceLE hleft

/-- A call isolates another delegator if and only if it leaves a share. -/
theorem isolated_iff (hs : Sound s) (hfit : StakedFits s c) (h : pool.step s c = .ok t)
    (hq : q ≠ c.env.predecessorAccountId) : Isolated s t q ↔ LeavesShare s c := by
  rcases call_cases h with ⟨rfl, -, hunstaking⟩ | ⟨u, b, hu, hact⟩
  · -- The two calls that never ping unstake nothing in any state.
    have hnone : ∀ u, unstaking u c = none := by
      obtain ⟨env, method⟩ := c
      intro u
      cases method <;> simp_all [unstaking]
    refine ⟨fun _ => ?_, fun _ => .refl t q⟩
    unfold LeavesShare AfterPing
    split
    · intro amount hamount
      rw [hnone] at hamount
      cases hamount
    · trivial
  · -- The other calls act on the state after their ping.
    have hleaves : LeavesShare s c ↔ ∀ amount ∈ unstaking u c,
        u.totalStakeShares * amount ≤ u.totalStakedBalance * (u.totalStakeShares - 1) := by
      simp only [LeavesShare, AfterPing, hu]
    rw [hleaves]
    constructor
    · intro hiso
      cases hact with
      | unstaked amount _ hunstaking h =>
        have hspec := innerUnstake_spec h
        intro a ha
        obtain rfl : amount = a := Option.some.inj (hunstaking.symm.trans ha)
        have hpos := internalPing_shares_pos hu hspec.shares_pos
        exact hspec.shares_pos_iff.mp (hiso.worth hpos).1
      | kept _ _ _ hnone => simp [hnone]
      | deposited _ _ hnone _ => simp [hnone]
      | withdrew _ _ _ hnone _ => simp [hnone]
      | staked _ _ hnone _ => simp [hnone]
    · intro hall
      exact (Isolated.internalPing hs hu hfit.1).trans
        (.acted hact hq (hfit.2.apply hu) hall) (internalPing_ownerId hu)

end Isolation

/-- A step of a run that does not saturate the staked balance isolates every other delegator if
and only if it is no unstake of more than all but one of the shares are worth. -/
theorem isolated_iff_leavesShare (s : StakingContract) (h : Deployed s) (calls : List Call)
    (x : Step StakingContract Call) (hx : x ∈ pool.steps s calls)
    (hfit : StakedFits x.before x.label) (q : AccountId)
    (hq : q ≠ x.label.env.predecessorAccountId) :
    Isolated x.before x.after q ↔ LeavesShare x.before x.label := by
  obtain ⟨pre, post, -, hbefore, hstep⟩ := Machine.mem_steps_iff.mp hx
  exact isolated_iff (hbefore ▸ sound_run h pre) hfit hstep hq

/-- Bob and Alice stake ten tokens each, and Alice unstakes hers, which leaves her with twenty
shares. -/
def doubledShares : List Call :=
  [⟨smallEnv "bob" 10, .depositAndStake⟩, ⟨smallEnv "alice" 10, .depositAndStake⟩,
    ⟨smallEnv "alice" 0, .unstake 10⟩]

theorem isolated_iff_doubledShares :
    Isolated (pool.run smallPool doubledShares)
        (pool.run smallPool (doubledShares ++ [⟨smallEnv "alice" 0, .unstake 10⟩])) "bob" ↔
      LeavesShare (pool.run smallPool doubledShares) ⟨smallEnv "alice" 0, .unstake 10⟩ :=
  isolated_iff_leavesShare smallPool deployed_smallPool
    (doubledShares ++ [⟨smallEnv "alice" 0, .unstake 10⟩]) ⟨_, _, _⟩
    (Machine.mem_steps_iff.mpr ⟨doubledShares, [], rfl, rfl, by rfl⟩) (by decide) "bob" (by decide)

/-- Then Alice unstakes all twenty shares there are, and Bob's ten are worth nothing. -/
theorem not_isolated :
    ¬ ∀ s, Deployed s → ∀ calls, ∀ x ∈ pool.steps s calls, ∀ q,
      q ≠ x.label.env.predecessorAccountId → Isolated x.before x.after q := by
  intro h
  have hrun := h smallPool deployed_smallPool
    (doubledShares ++ [⟨smallEnv "alice" 0, .unstake 20⟩])
    ⟨pool.run smallPool doubledShares, _,
      pool.run smallPool (doubledShares ++ [⟨smallEnv "alice" 0, .unstake 20⟩])⟩
    (Machine.mem_steps_iff.mpr ⟨doubledShares, [], rfl, rfl, by rfl⟩) "bob" (by decide)
  have hleft := (hrun.worth (by decide)).1
  revert hleft
  decide

end UncContracts.StakingPool
