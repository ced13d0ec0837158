import UncContracts.StakingPool.Reward
import UncContracts.StakingPool.Conservation

/-!
# The unstaking delay

An unstake makes the unstaked balance available a number of epochs later, and a withdrawal checks
that it is available. The epoch stands in the record of the account, which is deleted with its last
balance. It is never lost: an account that unstaked has shares, and one with shares keeps its record
and its epoch until it unstakes again.

## Main definitions

* `KeepsDelay`: an account with shares keeps the epoch
* `Delayed`: the epoch of an account, by the unstakes of a history

## Main results

* `keepsDelay_of_call`: only an unstake of the account sets its epoch
* `delayed_run`: the epoch in every run
* `delay_not_bypassed`: withdrawals wait for every unstake before them, and for nothing else
-/

namespace UncContracts.StakingPool

open Foundation StakingContract

/-- The methods that withdraw. -/
def Method.withdraws : Method → Bool
  | .withdrawAll | .withdraw _ => true
  | _ => false

/-- From `s` to `t` the account `q` keeps its epoch, or is deleted; with shares it keeps both. -/
structure KeepsDelay (s t : StakingContract) (q : AccountId) : Prop where
  shares : 0 < (s.internalGetAccount q).stakeShares → 0 < (t.internalGetAccount q).stakeShares
  epoch : 0 < (s.internalGetAccount q).stakeShares →
    (t.internalGetAccount q).unstakedAvailableEpochHeight =
      (s.internalGetAccount q).unstakedAvailableEpochHeight
  le : (t.internalGetAccount q).unstakedAvailableEpochHeight ≤
    (s.internalGetAccount q).unstakedAvailableEpochHeight

section Keeps

variable {s t u : StakingContract} {env : Env} {c : Call} {q : AccountId} {amount : ℕ}

theorem KeepsDelay.refl (s : StakingContract) (q : AccountId) : KeepsDelay s s q :=
  ⟨id, fun _ => rfl, le_rfl⟩

theorem KeepsDelay.trans (h₁ : KeepsDelay s u q) (h₂ : KeepsDelay u t q) : KeepsDelay s t q := by
  refine ⟨?_, ?_, h₂.le.trans h₁.le⟩
  · intro hpos
    exact h₂.shares (h₁.shares hpos)
  · intro hpos
    exact (h₂.epoch (h₁.shares hpos)).trans (h₁.epoch hpos)

theorem KeepsDelay.of_accounts (h : t.accounts = s.accounts) : KeepsDelay s t q := by
  have hget : t.internalGetAccount q = s.internalGetAccount q := by
    rw [internalGetAccount, h, internalGetAccount]
  refine ⟨?_, ?_, ?_⟩ <;> simp [hget]

/-- An account that is saved without balances reads as a new one. -/
theorem internalGetAccount_internalSaveAccount_eq (s : StakingContract) (id : AccountId)
    (a : Account) : (s.internalSaveAccount id a).internalGetAccount id =
      if 0 < a.unstaked ∨ 0 < a.stakeShares then a else ⟨0, 0, 0⟩ := by
  unfold internalSaveAccount internalGetAccount
  split
  · rw [AList.lookup_insert]
    rfl
  · rw [AList.lookup_erase]
    rfl

/-- Another account is saved, or the same with its epoch and, if it had any, with shares. -/
theorem KeepsDelay.of_save {id : AccountId} {a : Account}
    (haccounts : t.accounts = (s.internalSaveAccount id a).accounts)
    (hepoch : a.unstakedAvailableEpochHeight =
      (s.internalGetAccount id).unstakedAvailableEpochHeight)
    (hshares : 0 < (s.internalGetAccount id).stakeShares → 0 < a.stakeShares) :
    KeepsDelay s t q := by
  have hget : t.internalGetAccount q = (s.internalSaveAccount id a).internalGetAccount q := by
    rw [internalGetAccount, haccounts, internalGetAccount]
  by_cases hq : q = id
  · subst hq
    rw [internalGetAccount_internalSaveAccount_eq] at hget
    refine ⟨?_, ?_, ?_⟩
    · intro hpos
      rw [hget, if_pos (.inr (hshares hpos))]
      exact hshares hpos
    · intro hpos
      rw [hget, if_pos (.inr (hshares hpos))]
      exact hepoch
    · rw [hget]
      split
      · exact hepoch.le
      · exact Nat.zero_le _
  · rw [internalGetAccount_internalSaveAccount_of_ne s a hq] at hget
    refine ⟨?_, ?_, ?_⟩ <;> simp [hget]

/-- Shares that are added leave some. -/
theorem saturatingAdd_pos {a : ℕ} (b : ℕ) (h : 0 < a) : 0 < saturatingAdd a b :=
  Nat.lt_min.mpr ⟨Nat.add_pos_left h _, u128Max_pos⟩

theorem KeepsDelay.of_distributeReward {reward : ℕ} (h : s.distributeReward reward = .ok t) :
    KeepsDelay s t q := by
  simp only [distributeReward, bind_eq_ok, pure_eq_ok] at h
  obtain ⟨_, -, n, -, rfl⟩ := h
  by_cases hsome : 0 < n
  · rw [if_pos hsome]
    exact .of_save (internalSaveAccount_accounts s s.ownerId _ rfl) rfl (saturatingAdd_pos n)
  · rw [if_neg hsome]
    exact .of_accounts rfl

theorem KeepsDelay.of_internalPing {b : Bool} (h : s.internalPing env = .ok (t, b)) :
    KeepsDelay s t q := by
  unfold internalPing at h
  split at h
  · obtain ⟨rfl, -⟩ := Prod.mk.inj (pure_eq_ok.mp h)
    exact .refl _ _
  · simp only [bind_eq_ok, ensure_eq_ok] at h
    obtain ⟨-, -, h⟩ := h
    split at h
    · obtain ⟨u, hu, h⟩ := bind_eq_ok.mp h
      obtain ⟨rfl, -⟩ := Prod.mk.inj (pure_eq_ok.mp h)
      have hkept : KeepsDelay { s with lastEpochHeight := env.epochHeight } u q :=
        .of_distributeReward hu
      exact ⟨hkept.shares, hkept.epoch, hkept.le⟩
    · obtain ⟨u, hu, h⟩ := bind_eq_ok.mp h
      obtain rfl := pure_eq_ok.mp hu
      obtain ⟨rfl, -⟩ := Prod.mk.inj (pure_eq_ok.mp h)
      exact .of_accounts rfl

theorem KeepsDelay.credited (s : StakingContract) (c : Call) (q : AccountId) :
    KeepsDelay s (credited s c) q := by
  unfold StakingPool.credited
  split
  · exact .of_save rfl rfl id
  · exact .refl _ _

theorem KeepsDelay.of_internalWithdraw {promises : List Promise}
    (h : s.internalWithdraw env amount = .ok (t, promises)) : KeepsDelay s t q := by
  simp only [internalWithdraw, bind_eq_ok, ensure_eq_ok, pure_eq_ok] at h
  obtain ⟨-, -, -, -, -, -, h⟩ := h
  obtain ⟨rfl, -⟩ := Prod.mk.inj h
  exact .of_save rfl rfl id

theorem KeepsDelay.of_internalStake (h : s.internalStake env amount = .ok t) :
    KeepsDelay s t q := by
  simp only [internalStake, bind_eq_ok, ensure_eq_ok, pure_eq_ok] at h
  obtain ⟨-, -, n, -, -, -, -, -, -, -, -, -, -, -, rfl⟩ := h
  exact .of_save rfl rfl (saturatingAdd_pos n)

/-- An unstake saves an account with shares, which waits for the delay. -/
theorem accounts_of_innerUnstake (h : s.innerUnstake env amount = .ok t) :
    ∃ a : Account, t.accounts = (s.internalSaveAccount env.predecessorAccountId a).accounts ∧
      0 < a.stakeShares ∧
      a.unstakedAvailableEpochHeight = env.epochHeight + NUM_EPOCHS_TO_UNLOCK := by
  simp only [innerUnstake, bind_eq_ok, ensure_eq_ok, pure_eq_ok, checkedAdd_eq_ok] at h
  obtain ⟨-, -, -, -, n, -, -, hburnt, -, howned, -, -, -, -, epoch, ⟨-, rfl⟩, -, -, rfl⟩ := h
  exact ⟨_, rfl, saturatingAdd_pos n (hburnt.trans_le howned), rfl⟩

/-- The caller of an unstake has shares and waits for the delay. -/
theorem delay_of_innerUnstake (h : s.innerUnstake env amount = .ok t) :
    0 < (t.internalGetAccount env.predecessorAccountId).stakeShares ∧
      (t.internalGetAccount env.predecessorAccountId).unstakedAvailableEpochHeight =
        env.epochHeight + NUM_EPOCHS_TO_UNLOCK := by
  obtain ⟨a, haccounts, hpos, hepoch⟩ := accounts_of_innerUnstake h
  have hget : t.internalGetAccount env.predecessorAccountId = a := by
    rw [internalGetAccount, haccounts, ← internalGetAccount,
      internalGetAccount_internalSaveAccount s hpos]
  rw [hget]
  exact ⟨hpos, hepoch⟩

/-- An unstake keeps the others. -/
theorem KeepsDelay.of_innerUnstake (h : s.innerUnstake env amount = .ok t)
    (hq : q ≠ env.predecessorAccountId) : KeepsDelay s t q := by
  obtain ⟨a, haccounts, -⟩ := accounts_of_innerUnstake h
  have hget : t.internalGetAccount q = s.internalGetAccount q := by
    rw [internalGetAccount, haccounts, ← internalGetAccount,
      internalGetAccount_internalSaveAccount_of_ne s a hq]
  refine ⟨?_, ?_, ?_⟩ <;> simp [hget]

end Keeps

/-! ## Calls -/

section Calls

variable {s t : StakingContract} {c : Call} {q : AccountId}

/-- **Only an unstake of the account sets its epoch.** -/
theorem keepsDelay_of_call (h : pool.step s c = .ok t) :
    KeepsDelay s t q ∨ c.method.unstakes = true ∧ q = c.env.predecessorAccountId ∧
      0 < (t.internalGetAccount q).stakeShares ∧
      (t.internalGetAccount q).unstakedAvailableEpochHeight =
        c.env.epochHeight + NUM_EPOCHS_TO_UNLOCK := by
  rcases call_cases h with ⟨rfl, -⟩ | ⟨u, b, hu, hact⟩
  · exact .inl (.refl _ _)
  · have hping : KeepsDelay s u q := .of_internalPing hu
    cases hact with
    | kept hledger _ _ _ => exact .inl (hping.trans (.of_accounts hledger.accounts))
    | deposited _ _ _ h => exact .inl (hping.trans (h ▸ .credited u c q))
    | withdrew amount promises _ _ h => exact .inl (hping.trans (.of_internalWithdraw h))
    | staked amount _ _ h =>
      exact .inl ((hping.trans (.credited u c q)).trans (.of_internalStake h))
    | unstaked amount _ hunstaking h =>
      by_cases hq : q = c.env.predecessorAccountId
      · right
        refine ⟨?_, hq, ?_⟩
        · rw [← Bool.not_eq_false, ← unstaking_eq_none (s := u), hunstaking]
          simp
        · rw [hq]
          exact delay_of_innerUnstake h
      · exact .inl (hping.trans (.of_innerUnstake h hq))

/-- A call of a method that unstakes unstakes. -/
theorem delay_of_unstakes (h : pool.step s c = .ok t) (hmethod : c.method.unstakes = true) :
    0 < (t.internalGetAccount c.env.predecessorAccountId).stakeShares ∧
      (t.internalGetAccount c.env.predecessorAccountId).unstakedAvailableEpochHeight =
        c.env.epochHeight + NUM_EPOCHS_TO_UNLOCK := by
  have hsome : ∀ u : StakingContract, unstaking u c ≠ none := by
    intro u hnone
    rw [unstaking_eq_none, hmethod] at hnone
    cases hnone
  rcases call_cases h with ⟨-, -, hnone⟩ | ⟨u, b, hu, hact⟩
  · exact absurd hnone (hsome s)
  · cases hact with
    | unstaked amount _ _ h => exact delay_of_innerUnstake h
    | kept _ _ _ hnone => exact absurd hnone (hsome u)
    | deposited _ _ hnone _ => exact absurd hnone (hsome u)
    | withdrew _ _ _ hnone _ => exact absurd hnone (hsome u)
    | staked _ _ hnone _ => exact absurd hnone (hsome u)

/-- A withdrawal passes the check of the delay, against the epoch before the call. -/
theorem available_of_withdraws (h : pool.step s c = .ok t) (hmethod : c.method.withdraws = true)
    (hshares : 0 < (s.internalGetAccount c.env.predecessorAccountId).stakeShares) :
    (s.internalGetAccount c.env.predecessorAccountId).unstakedAvailableEpochHeight ≤
      c.env.epochHeight := by
  obtain ⟨u, b, amount, ps, hu, hwithdraw⟩ : ∃ u b amount ps,
      s.internalPing c.env = .ok (u, b) ∧ u.internalWithdraw c.env amount = .ok (t, ps) := by
    obtain ⟨env, method⟩ := c
    obtain ⟨⟨t', promises⟩, hcall, ht⟩ := bind_eq_ok.mp h
    obtain rfl := pure_eq_ok.mp ht
    obtain ⟨-, -, hcall⟩ := bind_eq_ok.mp hcall
    cases method with
    | withdrawAll =>
      obtain ⟨⟨u, b⟩, hu, hcall⟩ := bind_eq_ok.mp hcall
      obtain ⟨⟨v, ps⟩, hv, hcall⟩ := bind_eq_ok.mp hcall
      obtain ⟨rfl, -⟩ := Prod.mk.inj (pure_eq_ok.mp hcall)
      exact ⟨u, b, _, ps, hu, hv⟩
    | withdraw amount =>
      obtain ⟨⟨u, b⟩, hu, hcall⟩ := bind_eq_ok.mp hcall
      obtain ⟨⟨v, ps⟩, hv, hcall⟩ := bind_eq_ok.mp hcall
      obtain ⟨rfl, -⟩ := Prod.mk.inj (pure_eq_ok.mp hcall)
      exact ⟨u, b, _, ps, hu, hv⟩
    | _ => cases hmethod
  have hping : KeepsDelay s u c.env.predecessorAccountId := .of_internalPing hu
  simp only [internalWithdraw, bind_eq_ok, ensure_eq_ok] at hwithdraw
  obtain ⟨-, -, -, -, -, havailable, -⟩ := hwithdraw
  rwa [hping.epoch hshares] at havailable

/-- A withdrawal that the account can pay, and need not wait for, passes all checks. -/
theorem internalWithdraw_returns {env : Env} {amount : ℕ} (hpos : 0 < amount)
    (hle : amount ≤ (s.internalGetAccount env.predecessorAccountId).unstaked)
    (hepoch : (s.internalGetAccount env.predecessorAccountId).unstakedAvailableEpochHeight ≤
      env.epochHeight) : ∃ t promises, s.internalWithdraw env amount = .ok (t, promises) := by
  unfold internalWithdraw
  simp only [ensure_of hpos, ensure_of hle, ensure_of hepoch, ok_bind]
  exact ⟨_, _, rfl⟩

end Calls

/-! ## Runs -/

/-- The epoch of every account, by the unstakes of a history: it has passed the delay of each of
them, and it is the delay of one, or none. -/
def Delayed (history : List (Step StakingContract Call)) (s : StakingContract) : Prop :=
  ∀ q,
    (∀ x ∈ history, x.label.method.unstakes = true → x.label.env.predecessorAccountId = q →
      0 < (s.internalGetAccount q).stakeShares ∧
      x.label.env.epochHeight + NUM_EPOCHS_TO_UNLOCK ≤
        (s.internalGetAccount q).unstakedAvailableEpochHeight) ∧
    ((s.internalGetAccount q).unstakedAvailableEpochHeight = 0 ∨
      ∃ x ∈ history, x.label.method.unstakes = true ∧ x.label.env.predecessorAccountId = q ∧
        (s.internalGetAccount q).unstakedAvailableEpochHeight ≤
          x.label.env.epochHeight + NUM_EPOCHS_TO_UNLOCK)

/-- The epochs of a history do not decrease. -/
def Chronological (history : List (Step StakingContract Call)) : Prop :=
  history.Pairwise fun x y => x.label.env.epochHeight ≤ y.label.env.epochHeight

instance (history : List (Step StakingContract Call)) : Decidable (Chronological history) :=
  inferInstanceAs (Decidable (List.Pairwise _ history))

section Runs

variable {s t : StakingContract} {c : Call} {history : List (Step StakingContract Call)}

theorem delayed_step (h : Delayed history s) (hstep : pool.step s c = .ok t)
    (hepochs : ∀ x ∈ history, x.label.env.epochHeight ≤ c.env.epochHeight) :
    Delayed (history ++ [⟨s, c, t⟩]) t := by
  intro q
  obtain ⟨hall, hsome⟩ := h q
  rcases keepsDelay_of_call (q := q) hstep with hkept | ⟨hunstakes, rfl, hpos, hepoch⟩
  · constructor
    · intro x hx hunstakes hq
      rcases List.mem_append.mp hx with hx | hx
      · obtain ⟨hpos, hle⟩ := hall x hx hunstakes hq
        rw [hkept.epoch hpos]
        exact ⟨hkept.shares hpos, hle⟩
      · obtain rfl := List.mem_singleton.mp hx
        subst hq
        obtain ⟨hpos, heq⟩ := delay_of_unstakes hstep hunstakes
        exact ⟨hpos, heq.ge⟩
    · have hle := hkept.le
      rcases hsome with hzero | ⟨x, hx, hunstakes, hq, hx'⟩
      · left
        omega
      · exact .inr ⟨x, List.mem_append_left _ hx, hunstakes, hq, hle.trans hx'⟩
  · constructor
    · intro x hx _ _
      refine ⟨hpos, ?_⟩
      rw [hepoch]
      apply Nat.add_le_add_right
      rcases List.mem_append.mp hx with hx | hx
      · exact hepochs x hx
      · obtain rfl := List.mem_singleton.mp hx
        exact le_rfl
    · exact .inr ⟨_, List.mem_append_right _ (List.mem_singleton.mpr rfl), hunstakes, rfl, hepoch.le⟩

theorem delayed_new (h : Deployed s) : Delayed [] s := by
  intro q
  constructor
  · rintro x ⟨⟩
  · left
    rw [internalGetAccount, h.fresh.accounts]
    rfl

/-- The epochs of every account in every run. -/
theorem delayed_run (h : Deployed s) (calls : List Call)
    (hepochs : Chronological (pool.steps s calls)) :
    Delayed (pool.steps s calls) (pool.run s calls) := by
  refine Machine.run_induction (M := pool)
    (P := fun history u => Chronological history → Delayed history u) ?_ ?_ calls hepochs
  · rintro -
    exact delayed_new h
  · intro history u c v ih hstep hchronological
    obtain ⟨hbefore, -, hlast⟩ := List.pairwise_append.mp hchronological
    apply delayed_step (ih hbefore) hstep
    intro x hx
    exact hlast x hx _ (List.mem_singleton.mpr rfl)

end Runs

/-- **The delay is not bypassed.** In every run whose epochs do not decrease, a withdrawal that
succeeds comes after the delay of every unstake of the account before it. After the delay of all of
them, a withdrawal of at most the unstaked balance passes all checks. -/
theorem delay_not_bypassed (s : StakingContract) (h : Deployed s) (calls : List Call)
    (hepochs : Chronological (pool.steps s calls)) :
    (∀ c t, pool.step (pool.run s calls) c = .ok t → c.method.withdraws = true →
      ∀ x ∈ pool.steps s calls, x.label.method.unstakes = true →
        x.label.env.predecessorAccountId = c.env.predecessorAccountId →
        x.label.env.epochHeight + NUM_EPOCHS_TO_UNLOCK ≤ c.env.epochHeight) ∧
    ∀ env amount,
      (∀ x ∈ pool.steps s calls, x.label.method.unstakes = true →
        x.label.env.predecessorAccountId = env.predecessorAccountId →
        x.label.env.epochHeight + NUM_EPOCHS_TO_UNLOCK ≤ env.epochHeight) →
      0 < amount →
      amount ≤ ((pool.run s calls).internalGetAccount env.predecessorAccountId).unstaked →
      ∀ u b, (pool.run s calls).internalPing env = .ok (u, b) →
        ∃ t promises, (pool.run s calls).withdraw env amount = .ok (t, promises) := by
  have hdelayed := delayed_run h calls hepochs
  constructor
  · intro c t hstep hmethod x hx hunstakes hq
    obtain ⟨hpos, hle⟩ := (hdelayed c.env.predecessorAccountId).1 x hx hunstakes hq
    exact hle.trans (available_of_withdraws hstep hmethod hpos)
  · intro env amount hall hpos hle u b hu
    -- The ping before a withdrawal moves no epoch of an account.
    have hping : KeepsDelay _ u env.predecessorAccountId := .of_internalPing hu
    have hunstaked := unstaked_of_internalPing hu env.predecessorAccountId
    have hepoch : (u.internalGetAccount env.predecessorAccountId).unstakedAvailableEpochHeight ≤
        env.epochHeight := by
      apply hping.le.trans
      rcases (hdelayed env.predecessorAccountId).2 with hzero | ⟨x, hx, hunstakes, hq, hx'⟩
      · rw [hzero]
        exact Nat.zero_le _
      · exact hx'.trans (hall x hx hunstakes hq)
    obtain ⟨t, promises, ht⟩ := internalWithdraw_returns hpos (hunstaked ▸ hle) hepoch
    unfold withdraw
    simp only [hu, ok_bind, ht]
    exact ⟨_, _, rfl⟩

/-- Alice stakes ten tokens and unstakes five of them. -/
def sampleUnstake : List Call :=
  [⟨smallEnv "alice" 10, .depositAndStake⟩, ⟨smallEnv "alice" 0, .unstake 5⟩]

/-- Alice calls the small pool at an epoch. -/
def epochEnv (epochHeight : ℕ) : Env := { smallEnv "alice" 0 with epochHeight }

/-- She can withdraw what she unstaked from epoch eleven on. -/
theorem delay_not_bypassed_sampleUnstake :
    (∀ epoch t, pool.step (pool.run smallPool sampleUnstake) ⟨epochEnv epoch, .withdraw 5⟩ = .ok t →
      11 ≤ epoch) ∧
    ∀ u b, (pool.run smallPool sampleUnstake).internalPing (epochEnv 11) = .ok (u, b) →
      ∃ t promises,
        (pool.run smallPool sampleUnstake).withdraw (epochEnv 11) 5 = .ok (t, promises) := by
  have hdelay := delay_not_bypassed smallPool deployed_smallPool sampleUnstake (by decide)
  constructor
  · intro epoch t h
    exact hdelay.1 _ t h rfl _ (List.mem_cons_of_mem _ (List.mem_singleton.mpr rfl)) rfl rfl
  · exact hdelay.2 (epochEnv 11) 5 (by decide) (by decide) (by decide)

end UncContracts.StakingPool
