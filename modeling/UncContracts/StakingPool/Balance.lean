import UncContracts.Foundation.InFlight
import UncContracts.StakingPool.SharePrice

/-!
# The balance the staking pool remembers

The contract remembers the total balance it last saw, and a ping refuses to go on where the balance
of its account fell below it. The account is not the contract's own: deposits arrive with calls,
withdrawals leave as transfers that may come back, stake actions lock and unlock tokens, and rewards
and stray transfers arrive at any time. Here the contract runs together with its account, and the
remembered balance never exceeds the one that is there.

## Main definitions

* `Holdings`: the contract, the liquid and the locked balance of its account and the transfers in
  flight
* `Event`: what happens to the contract and to its account
* `Hosts`: the environment of a call, with the balances of the account
* `ledger`: the contract and its account as a machine
* `BalanceBacked`: the remembered balance is there

## Main results

* `lastTotalBalance_of_call`: what a call remembers is what it saw, with its deposit and without
  its transfers
* `balanceBacked_run`: the remembered balance is there after every run
* `ping_never_blocked`: at the start of every call the balance has not fallen, and no call fails
  for it
-/

namespace UncContracts.StakingPool

open Foundation StakingContract

/-- The transfer of a promise. -/
def Promise.payment : Promise → Option (AccountId × ℕ)
  | .transfer receiver amount => some (receiver, amount)
  | _ => none

/-- The transfers among the promises. -/
def payments (promises : List Promise) : List (AccountId × ℕ) := promises.filterMap Promise.payment

/-- The tokens of the transfers. -/
def paid (transfers : List (AccountId × ℕ)) : ℕ := (transfers.map Prod.snd).sum

@[simp] theorem payments_internalRestake (s : StakingContract) :
    payments s.internalRestake = [] := by
  unfold internalRestake
  split <;> rfl

@[simp] theorem payments_restake_if (s : StakingContract) (b : Bool) :
    payments (if b then s.internalRestake else []) = [] := by
  cases b with
  | true => exact payments_internalRestake s
  | false => rfl

theorem payments_append (ps qs : List Promise) :
    payments (ps ++ qs) = payments ps ++ payments qs := List.filterMap_append ..

/-- The contract, the tokens of its account and the withdrawals in flight. -/
structure Holdings where
  contract : StakingContract
  liquid : ℕ
  locked : ℕ
  transfers : List (AccountId × ℕ)

/-- What happens to the contract and to its account. Nothing takes tokens away but a withdrawal:
there is no slashing. -/
inductive Event
  | call (c : Call)
  /-- A transfer arrives, or it fails and comes back. -/
  | deliver (i : ℕ) (succeeded : Bool)
  /-- A reward of the epoch is locked with the stake. -/
  | reward (amount : ℕ)
  /-- Anyone sends tokens to the account. -/
  | receive (amount : ℕ)
  /-- A stake action, or the end of an epoch, decides what is locked. -/
  | restake (locked : ℕ)
  deriving DecidableEq, Repr

namespace Holdings

variable (w : Holdings)

/-- The tokens of the account, and those that may come back to it. -/
def tokens : ℕ := w.liquid + w.locked + paid w.transfers

/-- The environment in which the host runs a call. The attached deposit is in the balance already,
and all tokens are part of a supply that is a `u128`. -/
def Hosts (env : Env) : Prop :=
  env.accountBalance = w.liquid + env.attachedDeposit ∧ env.accountLockedBalance = w.locked ∧
    w.tokens + env.attachedDeposit ≤ u128Max

instance (env : Env) : Decidable (w.Hosts env) := inferInstanceAs (Decidable (_ ∧ _))

/-- The host runs a call and sends its transfers. A call that panics is rolled back, its deposit
included; so is one that sends more than the account has. -/
def hostCall (c : Call) : Exec Holdings := do
  ensure (w.Hosts c.env) "The environment is not the one of the account"
  let (contract, promises) ← w.contract.call c
  let balance := w.liquid + c.env.attachedDeposit
  ensure (paid (payments promises) ≤ balance) "Exceeded the account balance"
  return { w with
    contract
    liquid := balance - paid (payments promises)
    transfers := w.transfers ++ payments promises }

/-- A transfer in flight arrives or comes back. -/
def deliver (i : ℕ) (succeeded : Bool) : Exec Holdings := do
  let (transfer, rest) ← expect (takeAt w.transfers i) "No such transfer"
  return { w with
    transfers := rest
    liquid := if succeeded then w.liquid else w.liquid + transfer.2 }

/-- The liquid and the locked balance change places. -/
def restake (locked : ℕ) : Exec Holdings := do
  ensure (locked ≤ w.liquid + w.locked) "Not enough tokens to stake"
  return { w with liquid := w.liquid + w.locked - locked, locked }

end Holdings

/-- The contract and its account as a machine. -/
def ledger : Machine Holdings Event String where
  step w e :=
    match e with
    | .call c => w.hostCall c
    | .deliver i succeeded => w.deliver i succeeded
    | .reward amount => pure { w with locked := w.locked + amount }
    | .receive amount => pure { w with liquid := w.liquid + amount }
    | .restake locked => w.restake locked

/-- The account of a contract that was just initialized. -/
def Holdings.deployed (env : Env) (s : StakingContract) : Holdings where
  contract := s
  liquid := env.accountBalance
  locked := env.accountLockedBalance
  transfers := []

/-- The remembered balance is there. -/
def BalanceBacked (w : Holdings) : Prop := w.contract.lastTotalBalance ≤ w.liquid + w.locked

/-! ## What a call remembers -/

section Remembered

variable {s t u : StakingContract} {env : Env}

/-- A ping remembers the balance it was told of, or the one that it sees. -/
theorem lastTotalBalance_of_internalPing {b : Bool} (h : s.internalPing env = .ok (u, b)) :
    u.lastTotalBalance = s.lastTotalBalance ∨ u.lastTotalBalance = totalBalance env := by
  rcases internalPing_cases h with ⟨hledger, -⟩ | ⟨-, hreward, hlast, -⟩
  · exact .inl hledger.lastTotalBalance
  · right
    rw [hlast]
    unfold pendingReward at hreward ⊢
    omega

/-- After a ping at most `seen` is remembered, then the deposit arrives and the promises leave. -/
def Remembers (s t : StakingContract) (c : Call) (promises : List Promise) : Prop :=
  ∀ seen, s.lastTotalBalance ≤ seen → totalBalance c.env ≤ seen →
    t.lastTotalBalance ≤ seen + c.env.attachedDeposit - paid (payments promises)

/-- What is remembered after an action, from what is remembered after the ping. -/
theorem Remembers.of_ping {c : Call} {promises : List Promise} {b : Bool}
    (hping : s.internalPing c.env = .ok (u, b))
    (h : t.lastTotalBalance ≤
      u.lastTotalBalance + c.env.attachedDeposit - paid (payments promises)) :
    Remembers s t c promises := by
  intro seen hbefore hseen
  have hlast := lastTotalBalance_of_internalPing hping
  omega

/-- An action that neither credits nor pays. -/
theorem Remembers.of_kept {c : Call} {promises : List Promise} {b : Bool}
    (hping : s.internalPing c.env = .ok (u, b)) (hlast : t.lastTotalBalance = u.lastTotalBalance)
    (hpaid : payments promises = []) : Remembers s t c promises := by
  apply Remembers.of_ping hping
  rw [hlast, hpaid]
  exact Nat.le_add_right _ _

/-- A deposit is remembered, as long as the word holds it. -/
theorem credited_lastTotalBalance_le (s : StakingContract) (c : Call) :
    (credited s c).lastTotalBalance ≤ s.lastTotalBalance + c.env.attachedDeposit := by
  unfold credited
  split
  · rw [(internalDeposit_spec s c.env).2.1]
    exact saturatingAdd_le_add _ _
  · exact Nat.le_add_right _ _

/-- A withdrawal pays what it takes off. -/
theorem paid_of_internalWithdraw {amount : ℕ} {promises : List Promise}
    (h : s.internalWithdraw env amount = .ok (t, promises)) :
    paid (payments promises) = amount := by
  simp only [internalWithdraw, bind_eq_ok, ensure_eq_ok, pure_eq_ok] at h
  obtain ⟨-, -, -, -, -, -, h⟩ := h
  obtain ⟨-, rfl⟩ := Prod.mk.inj h
  rfl

theorem Remembers.of_withdraw {c : Call} {b : Bool} {amount : ℕ} {promises : List Promise}
    (hping : s.internalPing c.env = .ok (u, b))
    (h : u.internalWithdraw c.env amount = .ok (t, promises)) :
    Remembers s t c (promises ++ if b then t.internalRestake else []) := by
  apply Remembers.of_ping hping
  rw [payments_append, payments_restake_if, List.append_nil, paid_of_internalWithdraw h,
    (internalWithdraw_spec h).2.2.2.1]
  omega

end Remembered

/-- A call that leaves the contract alone and pays nothing. -/
theorem Remembers.refl (s : StakingContract) (c : Call) {promises : List Promise}
    (h : payments promises = []) : Remembers s s c promises := by
  intro seen hseen _
  rw [h]
  exact Nat.le_add_right_of_le hseen

/-- **What a call remembers** is at most what it knew or saw, with its deposit and without its
transfers. -/
theorem lastTotalBalance_of_call {s t : StakingContract} {c : Call} {promises : List Promise}
    (h : s.call c = .ok (t, promises)) : Remembers s t c promises := by
  cases called_of_call h with
  | answered succeeded hmethod =>
    apply Remembers.refl
    split <;> rfl
  | voted votingAccountId isVote => exact .refl s c rfl
  | pinged rewardFeeFraction hping => exact .of_kept hping rfl (by simp)
  | restaked stakePublicKey paused hping => exact .of_kept hping rfl (by simp)
  | paused hping => exact .of_kept hping rfl rfl
  | @deposited u _ hping =>
    apply Remembers.of_ping hping
    rw [payments_restake_if]
    exact credited_lastTotalBalance_le u c
  | withdrew amount promises hping _ _ haction => exact .of_withdraw hping haction
  | @staked u _ _ amount hping _ _ haction =>
    apply Remembers.of_ping hping
    rw [payments_internalRestake, (internalStake_spec haction).lastTotalBalance]
    exact credited_lastTotalBalance_le u c
  | unstaked amount hping _ _ haction =>
    exact .of_kept hping (innerUnstake_spec haction).lastTotalBalance (by simp)

/-! ## The contract and its account -/

namespace Holdings

variable {w v : Holdings}

/-- A hosted call sees the liquid and the locked balance, without its deposit. -/
theorem Hosts.totalBalance_eq {env : Env} (h : w.Hosts env) :
    totalBalance env = w.liquid + w.locked := by
  obtain ⟨hbalance, hlocked, hsupply⟩ := h
  unfold tokens at hsupply
  rw [totalBalance, hbalance, hlocked, saturatingAdd_of_le (by omega)]
  omega

end Holdings

variable {w v : Holdings}

theorem BalanceBacked.hostCall (hw : BalanceBacked w) {c : Call} (h : w.hostCall c = .ok v) : BalanceBacked v := by
  simp only [Holdings.hostCall, bind_eq_ok, ensure_eq_ok, pure_eq_ok] at h
  obtain ⟨-, hhosts, ⟨t, promises⟩, hcall, -, hpaid, rfl⟩ := h
  -- The ping sees the balance of the account without the deposit.
  have hlast := lastTotalBalance_of_call hcall (w.liquid + w.locked) hw
    (Holdings.Hosts.totalBalance_eq hhosts).le
  show t.lastTotalBalance ≤
    w.liquid + c.env.attachedDeposit - paid (payments promises) + w.locked
  omega

theorem BalanceBacked.deliver (hw : BalanceBacked w) {i : ℕ} {succeeded : Bool}
    (h : w.deliver i succeeded = .ok v) : BalanceBacked v := by
  simp only [Holdings.deliver, bind_eq_ok, expect_eq_ok, pure_eq_ok] at h
  obtain ⟨transfer, -, rfl⟩ := h
  unfold BalanceBacked at hw ⊢
  cases succeeded with
  | true => exact hw
  | false => exact hw.trans (Nat.add_le_add_right (Nat.le_add_right ..) _)

theorem BalanceBacked.restake (hw : BalanceBacked w) {locked : ℕ} (h : w.restake locked = .ok v) :
    BalanceBacked v := by
  simp only [Holdings.restake, bind_eq_ok, ensure_eq_ok, pure_eq_ok] at h
  obtain ⟨-, hle, rfl⟩ := h
  unfold BalanceBacked at hw ⊢
  show w.contract.lastTotalBalance ≤ w.liquid + w.locked - locked + locked
  omega

/-- **One event.** Whatever happens to the account, the remembered balance is there. -/
theorem BalanceBacked.step (hw : BalanceBacked w) {e : Event} (h : ledger.step w e = .ok v) : BalanceBacked v := by
  cases e with
  | call c => exact hw.hostCall h
  | deliver i succeeded => exact hw.deliver h
  | reward amount =>
    obtain rfl := pure_eq_ok.mp h
    exact hw.trans (Nat.add_le_add_left (Nat.le_add_right ..) _)
  | receive amount =>
    obtain rfl := pure_eq_ok.mp h
    exact hw.trans (Nat.add_le_add_right (Nat.le_add_right ..) _)
  | restake locked => exact hw.restake h

theorem balanceBacked_of_new {env : Env} {stateExists : Bool} {ownerId : AccountId}
    {stakePublicKey : PublicKey} {fraction : RewardFeeFraction} {s : StakingContract}
    {promises : List Promise}
    (h : StakingContract.new env stateExists ownerId stakePublicKey fraction = .ok (s, promises)) :
    BalanceBacked (.deployed env s) := by
  simp only [StakingContract.new, bind_eq_ok, ensure_eq_ok, pure_eq_ok] at h
  obtain ⟨-, -, -, -, -, -, -, -, h⟩ := h
  obtain ⟨rfl, -⟩ := Prod.mk.inj h
  exact Nat.le_add_right _ _

theorem balanceBacked_run (hw : BalanceBacked w) (events : List Event) : BalanceBacked (ledger.run w events) := by
  refine Machine.run_invariant (M := ledger) (G := fun _ _ => True) ?_ (fun _ _ => trivial) hw
  intro a e b ha _ hstep
  exact ha.step hstep

/-! ## The ping is never blocked -/

/-- What a ping says where the balance of the account fell. -/
def BALANCE_FELL : String := "The new total balance should not be less than the old total balance"

section Avoids

variable {s : StakingContract} {env : Env}

theorem ensure_avoids_fell {c : Prop} [Decidable c] {msg : String} (h : msg ≠ BALANCE_FELL) :
    Avoids (· = BALANCE_FELL) (ensure c msg) := Avoids.ensure fun hmsg => absurd hmsg h

theorem asU128_avoids_fell (a : ℕ) : Avoids (· = BALANCE_FELL) (asU128 a) := by
  unfold asU128
  split
  · exact .ok _
  · exact .error (by decide)

theorem checkedAdd_avoids_fell (max a b : ℕ) : Avoids (· = BALANCE_FELL) (checkedAdd max a b) :=
  .checkedAdd (by decide)

theorem multiply_avoids_fell (f : RewardFeeFraction) (value : ℕ) :
    Avoids (· = BALANCE_FELL) (f.multiply value) :=
  .bind (ensure_avoids_fell (by decide)) fun _ _ => asU128_avoids_fell _

theorem assertValid_avoids_fell (f : RewardFeeFraction) :
    Avoids (· = BALANCE_FELL) f.assertValid :=
  .bind (ensure_avoids_fell (by decide)) fun _ _ => ensure_avoids_fell (by decide)

theorem assertOwner_avoids_fell (s : StakingContract) (env : Env) :
    Avoids (· = BALANCE_FELL) (s.assertOwner env) := ensure_avoids_fell (by decide)

/-- The four conversions assert that there is something to convert. -/
theorem conversion_avoids_fell {c : Prop} [Decidable c] {msg : String} (h : msg ≠ BALANCE_FELL)
    (a : ℕ) :
    Avoids (· = BALANCE_FELL) (do ensure c msg; asU128 a) :=
  .bind (ensure_avoids_fell h) fun _ _ => asU128_avoids_fell a

theorem distributeReward_avoids_fell (s : StakingContract) (reward : ℕ) :
    Avoids (· = BALANCE_FELL) (s.distributeReward reward) :=
  .bind (multiply_avoids_fell _ _) fun _ _ =>
    .bind (conversion_avoids_fell (by decide) _) fun _ _ => .pure _

/-- A ping that sees the balance it remembers does not complain. -/
theorem internalPing_avoids_fell (h : s.lastTotalBalance ≤ totalBalance env) :
    Avoids (· = BALANCE_FELL) (s.internalPing env) := by
  unfold internalPing
  split
  · exact .pure _
  · apply Avoids.bind (.ensure fun _ => h)
    intro _ _
    apply Avoids.ite
    · exact .bind (distributeReward_avoids_fell _ _) fun _ _ => .pure _
    · exact .bind (.pure _) fun _ _ => .pure _

theorem internalWithdraw_avoids_fell (s : StakingContract) (env : Env) (amount : ℕ) :
    Avoids (· = BALANCE_FELL) (s.internalWithdraw env amount) :=
  .bind (ensure_avoids_fell (by decide)) fun _ _ =>
    .bind (ensure_avoids_fell (by decide)) fun _ _ =>
      .bind (ensure_avoids_fell (by decide)) fun _ _ => .pure _

theorem internalStake_avoids_fell (s : StakingContract) (env : Env) (amount : ℕ) :
    Avoids (· = BALANCE_FELL) (s.internalStake env amount) := by
  apply Avoids.bind (ensure_avoids_fell (by decide))
  intro _ _
  apply Avoids.bind (conversion_avoids_fell (by decide) _)
  intro n _
  apply Avoids.bind (ensure_avoids_fell (by decide))
  intro _ _
  apply Avoids.bind (conversion_avoids_fell (by decide) _)
  intro charge _
  apply Avoids.bind (ensure_avoids_fell (by decide))
  intro _ _
  apply Avoids.bind (ensure_avoids_fell (by decide))
  intro _ _
  exact .bind (conversion_avoids_fell (by decide) _) fun _ _ => .pure _

theorem innerUnstake_avoids_fell (s : StakingContract) (env : Env) (amount : ℕ) :
    Avoids (· = BALANCE_FELL) (s.innerUnstake env amount) := by
  apply Avoids.bind (ensure_avoids_fell (by decide))
  intro _ _
  apply Avoids.bind (ensure_avoids_fell (by decide))
  intro _ _
  apply Avoids.bind (conversion_avoids_fell (by decide) _)
  intro n _
  apply Avoids.bind (ensure_avoids_fell (by decide))
  intro _ _
  apply Avoids.bind (ensure_avoids_fell (by decide))
  intro _ _
  apply Avoids.bind (conversion_avoids_fell (by decide) _)
  intro receive _
  apply Avoids.bind (ensure_avoids_fell (by decide))
  intro _ _
  apply Avoids.bind (checkedAdd_avoids_fell _ _ _)
  intro epoch _
  exact .bind (conversion_avoids_fell (by decide) _) fun _ _ => .pure _

/-- No call fails for the balance while the ping sees what it remembers. -/
theorem call_avoids_fell {c : Call} (h : s.lastTotalBalance ≤ totalBalance c.env) :
    Avoids (· = BALANCE_FELL) (s.call c) := by
  obtain ⟨env, method⟩ := c
  have hping : Avoids (· = BALANCE_FELL) (s.internalPing env) := internalPing_avoids_fell h
  apply Avoids.bind (ensure_avoids_fell (by decide))
  intro _ _
  -- Only the ping compares the balances, and it panics for no other method.
  cases method with
  | ping => exact .bind hping fun _ _ => .pure _
  | deposit => exact .bind hping fun _ _ => .pure _
  | depositAndStake =>
    exact .bind hping fun _ _ => .bind (internalStake_avoids_fell _ _ _) fun _ _ => .pure _
  | withdrawAll =>
    exact .bind hping fun _ _ => .bind (internalWithdraw_avoids_fell _ _ _) fun _ _ => .pure _
  | withdraw amount =>
    exact .bind hping fun _ _ => .bind (internalWithdraw_avoids_fell _ _ _) fun _ _ => .pure _
  | stakeAll =>
    exact .bind hping fun _ _ => .bind (internalStake_avoids_fell _ _ _) fun _ _ => .pure _
  | stake amount =>
    exact .bind hping fun _ _ => .bind (internalStake_avoids_fell _ _ _) fun _ _ => .pure _
  | unstakeAll =>
    apply Avoids.bind hping
    intro _ _
    apply Avoids.bind (conversion_avoids_fell (by decide) _)
    intro amount _
    exact .bind (innerUnstake_avoids_fell _ _ _) fun _ _ => .pure _
  | unstake amount =>
    exact .bind hping fun _ _ => .bind (innerUnstake_avoids_fell _ _ _) fun _ _ => .pure _
  | onStakeAction results =>
    exact .bind (ensure_avoids_fell (by decide)) fun _ _ =>
      .bind (ensure_avoids_fell (by decide)) fun _ _ => .pure _
  | updateStakingKey key =>
    exact .bind (assertOwner_avoids_fell _ _) fun _ _ => .bind hping fun _ _ => .pure _
  | updateRewardFeeFraction fraction =>
    exact .bind (assertOwner_avoids_fell _ _) fun _ _ =>
      .bind (assertValid_avoids_fell _) fun _ _ => .bind hping fun _ _ => .pure _
  | vote votingAccountId isVote =>
    exact .bind (assertOwner_avoids_fell _ _) fun _ _ =>
      .bind (ensure_avoids_fell (by decide)) fun _ _ => .pure _
  | pauseStaking =>
    exact .bind (assertOwner_avoids_fell _ _) fun _ _ =>
      .bind (ensure_avoids_fell (by decide)) fun _ _ => .bind hping fun _ _ => .pure _
  | resumeStaking =>
    exact .bind (assertOwner_avoids_fell _ _) fun _ _ =>
      .bind (ensure_avoids_fell (by decide)) fun _ _ => .bind hping fun _ _ => .pure _

end Avoids

/-- **Ping is never blocked.** In every run of an initialized contract with its account, at the
start of every call the remembered balance is at most the balance of the account without the
deposit, and no call fails because the balance fell. -/
theorem ping_never_blocked {env : Env} {stateExists : Bool} {ownerId : AccountId}
    {stakePublicKey : PublicKey} {fraction : RewardFeeFraction} {s : StakingContract}
    {promises : List Promise}
    (h : StakingContract.new env stateExists ownerId stakePublicKey fraction = .ok (s, promises))
    (events : List Event) (c : Call)
    (hhosts : (ledger.run (.deployed env s) events).Hosts c.env) :
    (ledger.run (.deployed env s) events).contract.lastTotalBalance ≤
        c.env.accountLockedBalance + c.env.accountBalance - c.env.attachedDeposit ∧
      (ledger.run (.deployed env s) events).contract.call c ≠ .error BALANCE_FELL := by
  have hbacked := balanceBacked_run (balanceBacked_of_new h) events
  generalize ledger.run (.deployed env s) events = w at hhosts hbacked ⊢
  unfold BalanceBacked at hbacked
  constructor
  · rw [hhosts.1, hhosts.2.1]
    omega
  · intro hfell
    refine call_avoids_fell ?_ BALANCE_FELL hfell rfl
    rw [Holdings.Hosts.totalBalance_eq hhosts]
    exact hbacked

/-- The environment of a later call to the pool with ten staked tokens. -/
def laterEnv (attachedDeposit liquid locked : Fin 1000) (epochHeight : ℕ) : Env where
  currentAccountId := "pool"
  predecessorAccountId := "alice"
  signerAccountPk := "pk"
  attachedDeposit
  accountBalance := STAKE_SHARE_PRICE_GUARANTEE_FUND + liquid + attachedDeposit
  accountLockedBalance := locked
  epochHeight
  blockHeight := 1
  blockTimestamp := 1
  attachedDeposit_le := by unfold u128Max; omega
  accountBalance_le := by unfold u128Max STAKE_SHARE_PRICE_GUARANTEE_FUND; omega
  accountLockedBalance_le := by unfold u128Max; omega

/-- Alice deposits five tokens, the pool is rewarded and she pings it in the next epoch. -/
theorem ping_never_blocked_smallPool :
    (ledger.run (.deployed (smallEnv "factory" 0) smallPool)
        [.call ⟨laterEnv 5 10 0 7, .deposit⟩, .reward 100]).contract.lastTotalBalance ≤
        100 + (STAKE_SHARE_PRICE_GUARANTEE_FUND + 15 + 0) - 0 ∧
      (ledger.run (.deployed (smallEnv "factory" 0) smallPool)
        [.call ⟨laterEnv 5 10 0 7, .deposit⟩, .reward 100]).contract.call
          ⟨laterEnv 0 15 100 8, .ping⟩ ≠ .error BALANCE_FELL :=
  ping_never_blocked
    (show StakingContract.new (smallEnv "factory" 0) false "owner" "key" ⟨1, 10⟩ =
      .ok (smallPool, smallPool.internalRestake) from rfl)
    [.call ⟨laterEnv 5 10 0 7, .deposit⟩, .reward 100] ⟨laterEnv 0 15 100 8, .ping⟩ (by decide)

end UncContracts.StakingPool
