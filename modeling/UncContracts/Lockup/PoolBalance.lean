import UncContracts.Lockup.Asking
import UncContracts.Lockup.Peer
import UncContracts.Lockup.Progress
import UncContracts.StakingPool.Contract

/-!
# The balance at the staking pool

The lockup with the staking pool contract deployed at its pool. A refresh is to make the known
deposit the total balance that the pool has of the lockup, and a withdrawal of everything is to get
the unstaked balance back. Neither is ever achieved, since the pool is not asked.

## Main definitions

* `poolPeer`: the staking pool as the lockup calls it
* `Refreshes`, `WithdrawsAll`: what the two operations are for

## Main results

* `never_asks_pool`: from no state with an idle pool does either operation do what it is for
* `not_refreshed`: a refresh that is executed in vain, though the pool tells the balance
-/

namespace UncContracts.Lockup

open Foundation
open StakingPool (StakingContract)

/-! ## The staking pool as the lockup calls it -/

/-- The method of the pool that changes its state. -/
def ExternalMethod.ofPool : ExternalMethod → Option StakingPool.Method
  | .deposit => some .deposit
  | .depositAndStake => some .depositAndStake
  | .withdraw amount => some (.withdraw amount)
  | .stake amount => some (.stake amount)
  | .unstake amount => some (.unstake amount)
  | .unstakeAll => some .unstakeAll
  | _ => none

/-- What a view returns. -/
def viewed (x : Exec ℕ) : PromiseResult :=
  match x with
  | .ok amount => .successful (.amount amount)
  | .error _ => .failed

/-- The tokens that promises transfer to an account. -/
def transferredTo (accountId : AccountId) (promises : List StakingPool.Promise) : ℕ :=
  (promises.map fun
    | .transfer receiver amount => if receiver = accountId then amount else 0
    | _ => 0).sum

/-- The execution of a call of the lockup at the pool. A call that fails returns its deposit. -/
def poolAnswer (s : StakingContract) (env : Env) (method : ExternalMethod) :
    StakingContract × PromiseResult × ℕ :=
  match method with
  | .getAccountStakedBalance accountId => (s, viewed (s.getAccountStakedBalance env accountId), 0)
  | .getAccountUnstakedBalance accountId =>
    (s, viewed (s.getAccountUnstakedBalance env accountId), 0)
  | .getAccountTotalBalance accountId => (s, viewed (s.getAccountTotalBalance env accountId), 0)
  | method =>
    match method.ofPool with
    | some method =>
      match s.call ⟨env, method⟩ with
      | .ok (t, promises) => (t, .successful .other, transferredTo env.predecessorAccountId promises)
      | .error _ => (s, .failed, env.attachedDeposit)
    | none => (s, .failed, env.attachedDeposit)

/-- The unstaked balance of an account and the worth of its shares. -/
def poolHolds (s : StakingContract) (accountId : AccountId) : ℕ :=
  let account := s.internalGetAccount accountId
  account.unstaked + match s.stakedAmountFromNumSharesRoundedDown account.stakeShares with
    | .ok amount => amount
    | .error _ => 0

/-- The staking pool as the lockup calls it. -/
def poolPeer (accountId : AccountId) : Peer StakingContract StakingPool.Call where
  accountId
  machine := StakingPool.pool
  env c := c.env
  answer := poolAnswer
  holds := poolHolds

/-! ## What the operations are for -/

/-- The label executes a receipt. -/
def PeerLabel.IsReceipt {ι : Type} : PeerLabel ι → Prop
  | .lockup (.deliver _ _) | .lockup (.resume _ _) | .answer _ _ => True
  | _ => False

/-- No operation at the pool is awaited. -/
def World.Completed (w : World) : Prop := ∀ c ∈ w.pending, c.isPool = false

/-- The tokens that the pool sends to the lockup at a step. -/
def sentByPool (x : Step (Composed StakingContract) (PeerLabel StakingPool.Call)) : ℕ :=
  match x.label with
  | .answer i env =>
    match x.before.world.callAt env.currentAccountId i with
    | some (method, _) => (poolAnswer x.before.peer env method).2.2
    | none => 0
  | _ => 0

section Operations

variable (sha256 : List UInt8 → Hash) (pool : AccountId) (c : Composed StakingContract) (env : Env)

/-- A refresh makes the known deposit the given total balance, once its receipts are executed. -/
def Refreshes (total : ℕ) : Prop :=
  ∀ c', ((poolPeer pool).system sha256).step c (.lockup (.call env .refreshStakingPoolBalance)) =
      .ok c' →
    ∀ ls, (∀ l ∈ ls, l.IsReceipt) →
      (((poolPeer pool).system sha256).run c' ls).world.Completed →
      (((poolPeer pool).system sha256).run c' ls).world.contract.stakingInformation =
        some ⟨pool, .idle, total⟩

/-- A withdrawal of everything gets the given unstaked balance from the pool and takes it off the
known deposit, once its receipts are executed. -/
def WithdrawsAll (deposit unstaked : ℕ) : Prop :=
  ∀ c', ((poolPeer pool).system sha256).step c (.lockup (.call env .withdrawAllFromStakingPool)) =
      .ok c' →
    ∀ ls, (∀ l ∈ ls, l.IsReceipt) →
      (((poolPeer pool).system sha256).run c' ls).world.Completed →
      ((((poolPeer pool).system sha256).steps c' ls).map sentByPool).sum = unstaked ∧
        (((poolPeer pool).system sha256).run c' ls).world.contract.stakingInformation =
          some ⟨pool, .idle, deposit - unstaked⟩

end Operations

section Never

variable {sha256 : List UInt8 → Hash} {pool : AccountId} {c : Composed StakingContract} {env : Env}
  {deposit : ℕ} {method : Method}

/-- The operation begins, its receipts are executed, and the pool is busy ever after. -/
theorem busy_of_askable (h : Askable pool deposit c.world env) (hmethod : method.asks = true)
    (hflight : SingleFlight c.world.contract c.world.pending)
    (hunanswered : ∀ r ∈ c.world.receipts, r.Unanswered c.world.accountId) :
    ∃ c', ((poolPeer pool).system sha256).step c (.lockup (.call env method)) = .ok c' ∧
      (∀ ls, (((poolPeer pool).system sha256).run c' ls).world.contract.stakingInformation =
        some ⟨pool, .busy, deposit⟩) ∧
      ∃ ls, (∀ l ∈ ls, PeerLabel.IsReceipt l) ∧
        (((poolPeer pool).system sha256).run c' ls).world.Completed := by
  have hcall : ((poolPeer pool).system sha256).step c (.lockup (.call env method)) =
      .ok { c with world := c.world.asked env pool deposit method } :=
    Peer.step_of_lockup (show c.world.Leaves pool (.call env method) from trivial) (h.step hmethod)
  have hasking := h.asking hmethod hflight hunanswered
  refine ⟨_, hcall, ?_, ?_⟩
  · intro ls
    obtain ⟨ls', hworld⟩ := Peer.run_world (P := poolPeer pool) ls
    rw [hworld]
    exact (asking_run hasking ls').busy
  · -- The query is not one for the pool, so that it is the lockup that executes it.
    obtain ⟨w₁, w₂, hdeliver, hresume, hreceipts⟩ := h.completes
    have hleaves : (c.world.asked env pool deposit method).Leaves pool
        (.deliver c.world.receipts.length c.world.failure) := by
      have hquery : (c.world.asked env pool deposit method).receipts[c.world.receipts.length]? =
          some (.promise (.functionCall c.world.accountId (query pool method).1 0
            (query pool method).2)) := List.getElem?_concat_length
      change World.callAt _ pool c.world.receipts.length = none
      unfold World.callAt
      rw [hquery]
      exact if_neg fun hself => hself.2 rfl
    have hresumes : w₁.Leaves pool (.resume c.world.receipts.length (selfCall env)) := trivial
    refine ⟨[.lockup (.deliver c.world.receipts.length c.world.failure),
      .lockup (.resume c.world.receipts.length (selfCall env))], by simp [PeerLabel.IsReceipt], ?_⟩
    rw [Machine.run_cons, Machine.exec_of_ok (Peer.step_of_lockup hleaves hdeliver),
      Machine.run_cons, Machine.exec_of_ok (Peer.step_of_lockup hresumes hresume), Machine.run_nil]
    intro callback hcallback
    have hpending : callback ∈ c.world.pending := by
      rw [World.pending, ← hreceipts]
      exact hcallback
    refine (hflight.expected callback hpending).isPool_eq_false ?_
    intro information hsome
    cases h.idle.symm.trans hsome
    rfl

/-- What is reached from a new lockup and any pool has one operation in flight, and no answers. -/
theorem reached_run {env₀ : Env} {vesting : Option VestingScheduleOrHash} {s : LockupContract}
    (hnew : s.IsNew env₀ vesting) (held : AccountId → ℕ) (peer : StakingContract)
    (ls : List (PeerLabel StakingPool.Call))
    (hc : c = ((poolPeer pool).system sha256).run ⟨.initial env₀ s held, peer⟩ ls) :
    SingleFlight c.world.contract c.world.pending ∧
      ∀ r ∈ c.world.receipts, r.Unanswered c.world.accountId := by
  obtain ⟨ls', hworld⟩ : ∃ ls', c.world = (system sha256).run (.initial env₀ s held) ls' :=
    hc ▸ Peer.run_world ls
  rw [hworld]
  exact ⟨singleFlight_run hnew held ls', unanswered_run env₀ s held ls'⟩

end Never

/-- **The pool is never asked.** From no state with an idle pool and no termination does a refresh
learn the balance, nor does a withdrawal of everything get anything: both are accepted, and leave
the pool busy with the known deposit as it was, for ever. -/
theorem never_asks_pool (sha256 : List UInt8 → Hash) (env₀ : Env)
    (vesting : Option VestingScheduleOrHash) (s : LockupContract) (hnew : s.IsNew env₀ vesting)
    (held : AccountId → ℕ) (pool : AccountId) (peer : StakingContract)
    (ls : List (PeerLabel StakingPool.Call)) (c : Composed StakingContract)
    (hc : c = ((poolPeer pool).system sha256).run ⟨.initial env₀ s held, peer⟩ ls) (env : Env)
    (deposit : ℕ) (hask : Askable pool deposit c.world env) :
    (∀ total, ¬ Refreshes sha256 pool c env total) ∧
      (∀ unstaked, ¬ WithdrawsAll sha256 pool c env deposit unstaked) ∧
      ∀ method : Method, method.asks = true →
        ∃ c', ((poolPeer pool).system sha256).step c (.lockup (.call env method)) = .ok c' ∧
          ∀ ls, (((poolPeer pool).system sha256).run c' ls).world.contract.stakingInformation =
            some ⟨pool, .busy, deposit⟩ := by
  obtain ⟨hflight, hunanswered⟩ := reached_run hnew held peer ls hc
  refine ⟨?_, ?_, ?_⟩
  · intro total h
    obtain ⟨c', hcall, hbusy, ls, hreceipts, hcompleted⟩ :=
      busy_of_askable hask (rfl : Method.refreshStakingPoolBalance.asks = true) hflight hunanswered
    cases (hbusy ls).symm.trans (h c' hcall ls hreceipts hcompleted)
  · intro unstaked h
    obtain ⟨c', hcall, hbusy, ls, hreceipts, hcompleted⟩ :=
      busy_of_askable hask (rfl : Method.withdrawAllFromStakingPool.asks = true) hflight hunanswered
    cases (hbusy ls).symm.trans (h c' hcall ls hreceipts hcompleted).2
  · intro method hmethod
    obtain ⟨c', hcall, hbusy, -⟩ := busy_of_askable hask hmethod hflight hunanswered
    exact ⟨c', hcall, hbusy⟩

/-- A pool whose tokens are all staked for shares that belong to nobody. -/
def samplePool : StakingContract where
  ownerId := "founder"
  stakePublicKey := "key"
  lastEpochHeight := 1
  lastTotalBalance := 1000
  totalStakeShares := 1000
  totalStakedBalance := 1000
  rewardFeeFraction := ⟨1, 10⟩
  accounts := ∅
  paused := false

theorem sampleStake_le : 3000000 ≤ u128Max := by decide

theorem sampleLocked_le : 1000 ≤ u128Max := by decide

/-- The lockup calls the pool. -/
def samplePoolEnv (attachedDeposit : ℕ) (h : attachedDeposit ≤ u128Max) : Env where
  currentAccountId := "pool"
  predecessorAccountId := "lockup"
  signerAccountPk := "pk"
  attachedDeposit
  accountBalance := attachedDeposit
  accountLockedBalance := 1000
  epochHeight := 1
  blockHeight := 1
  blockTimestamp := 1
  attachedDeposit_le := h
  accountBalance_le := h
  accountLockedBalance_le := sampleLocked_le

/-- The owner selects the pool and deposits to it. -/
def sampleAtPool : List (PeerLabel StakingPool.Call) :=
  sampleSelect.map .lockup ++
    [.lockup (.call (sampleEnv "owner" (MIN_BALANCE_FOR_STORAGE + 4000000) 3 sampleBalance_le)
        (.depositToStakingPool 3000000)),
      .answer 0 (samplePoolEnv 3000000 sampleStake_le),
      .lockup (.resume 0 (sampleEnv "lockup" (MIN_BALANCE_FOR_STORAGE + 1000000) 4 sampleRest_le))]

/-- The lockup with its deposit at the pool. -/
def sampleComposed : Composed StakingContract :=
  ((poolPeer "pool").system id).run ⟨World.initial
    (sampleEnv "creator" (MIN_BALANCE_FOR_STORAGE + 4000000) 0 sampleBalance_le) sampleLockup
    fun _ => 0, samplePool⟩ sampleAtPool

theorem askable_sampleComposed : Askable "pool" 3000000 sampleComposed.world
    (sampleEnv "owner" (MIN_BALANCE_FOR_STORAGE + 1000000) 5 sampleRest_le) :=
  ⟨by decide +kernel, by decide +kernel, by decide +kernel, by decide +kernel, by decide +kernel,
    rfl⟩

theorem never_asks_pool_sampleComposed :
    (∀ total, ¬ Refreshes id "pool" sampleComposed
      (sampleEnv "owner" (MIN_BALANCE_FOR_STORAGE + 1000000) 5 sampleRest_le) total) ∧
    ∀ unstaked, ¬ WithdrawsAll id "pool" sampleComposed
      (sampleEnv "owner" (MIN_BALANCE_FOR_STORAGE + 1000000) 5 sampleRest_le) 3000000 unstaked := by
  obtain ⟨hrefresh, hwithdraw, -⟩ := never_asks_pool id _ none sampleLockup isNew_sampleLockup
    (fun _ => 0) "pool" samplePool sampleAtPool sampleComposed rfl _ 3000000 askable_sampleComposed
  exact ⟨hrefresh, hwithdraw⟩

/-- The query of the owner's operation fails, and so does its callback. -/
def sampleInVain : List (PeerLabel StakingPool.Call) :=
  [.lockup (.deliver 0 ⟨.failed, 0, 0⟩),
    .lockup (.resume 0 (sampleEnv "lockup" (MIN_BALANCE_FOR_STORAGE + 1000000) 6 sampleRest_le))]

/-- The pool tells the balance of the lockup, and allows its withdrawal. Once all receipts of a
refresh or of a withdrawal of everything are executed, the pool is still busy. -/
theorem not_refreshed :
    sampleComposed.world.contract.stakingInformation = some ⟨"pool", .idle, 3000000⟩ ∧
      sampleComposed.peer.getAccountTotalBalance (samplePoolEnv 0 (Nat.zero_le _)) "lockup" =
        .ok 3000000 ∧
      sampleComposed.peer.getAccount (samplePoolEnv 0 (Nat.zero_le _)) "lockup" =
        .ok ⟨"lockup", 3000000, 0, true⟩ ∧
      ¬ Refreshes id "pool" sampleComposed
        (sampleEnv "owner" (MIN_BALANCE_FOR_STORAGE + 1000000) 5 sampleRest_le) 3000000 ∧
      ¬ WithdrawsAll id "pool" sampleComposed
        (sampleEnv "owner" (MIN_BALANCE_FOR_STORAGE + 1000000) 5 sampleRest_le) 3000000 3000000 := by
  refine ⟨by decide +kernel, by decide +kernel, by decide +kernel, ?_, ?_⟩
  · intro h
    refine absurd (h _ (Machine.step_eq_exec (by decide +kernel)) sampleInVain
      (by simp [sampleInVain, PeerLabel.IsReceipt]) ?_) (by decide +kernel)
    unfold World.Completed
    decide +kernel
  · intro h
    refine absurd (h _ (Machine.step_eq_exec (by decide +kernel)) sampleInVain
      (by simp [sampleInVain, PeerLabel.IsReceipt]) ?_).2 (by decide +kernel)
    unfold World.Completed
    decide +kernel

end UncContracts.Lockup
