import UncContracts.Foundation.InFlight
import UncContracts.Foundation.Machine
import UncContracts.StakingPool.Contract
import UncContracts.Whitelist.Contract

/-!
# The staking pool factory

The factory creates staking pools on its sub-accounts and is to whitelist each pool it created. A
creation goes through three receipts: the pool's account, the callback with its outcome, and the
call that whitelists the pool.

## Main definitions

* `StakingPoolFactory`: the contract's state
* `createStakingPool`, `onStakingPoolCreate`: its methods, with the receipts they issue
* `World`, `system`: the factory and the whitelist with the receipts in flight
-/

namespace UncContracts.PoolFactory

open Foundation Whitelist

/-- The tokens required for the storage of the staking pool. -/
def MIN_ATTACHED_BALANCE : ℕ := 30000000000000000000000000

/-- The contract's state. -/
structure StakingPoolFactory where
  /-- The account of the whitelist contract. -/
  stakingPoolWhitelistAccountId : AccountId
  /-- The staking pools created. -/
  stakingPoolAccountIds : Finset AccountId
  deriving DecidableEq

/-- The arguments of the initialization of a staking pool. -/
structure StakingPoolArgs where
  ownerId : AccountId
  stakePublicKey : PublicKey
  rewardFeeFraction : StakingPool.RewardFeeFraction
  deriving DecidableEq, Repr

/-- A receipt issued by the factory. -/
inductive Receipt
  /-- Creates the pool's account with the tokens, deploys the pool and calls `new`; then calls
  `on_staking_pool_create`. -/
  | createPool (stakingPoolAccountId : AccountId) (args : StakingPoolArgs)
      (attachedDeposit : ℕ) (predecessorAccountId : AccountId)
  /-- The callback, with whether the pool was created. -/
  | onStakingPoolCreate (stakingPoolAccountId : AccountId) (attachedDeposit : ℕ)
      (predecessorAccountId : AccountId) (created : Bool)
  /-- A call of `add_staking_pool` at the receiver. -/
  | addStakingPool (receiver stakingPoolAccountId : AccountId)
  | transfer (receiver : AccountId) (amount : ℕ)
  deriving DecidableEq, Repr

namespace StakingPoolFactory

def new (stateExists : Bool) (stakingPoolWhitelistAccountId : AccountId) :
    Exec StakingPoolFactory := do
  ensure (stateExists = false) "The contract is already initialized"
  ensure (isValidAccountId stakingPoolWhitelistAccountId)
    "The staking pool whitelist account ID is invalid"
  return { stakingPoolWhitelistAccountId, stakingPoolAccountIds := ∅ }

variable (s : StakingPoolFactory)

/-- The account of a pool: the given prefix under the factory's account. -/
def poolAccountId (currentAccountId stakingPoolId : AccountId) : AccountId :=
  stakingPoolId ++ "." ++ currentAccountId

/-- Creates a new staking pool. -/
def createStakingPool (env : Env) (stakingPoolId ownerId : AccountId) (stakePublicKey : PublicKey)
    (rewardFeeFraction : StakingPool.RewardFeeFraction) : Exec (StakingPoolFactory × Receipt) := do
  ensure (MIN_ATTACHED_BALANCE ≤ env.attachedDeposit)
    "Not enough attached deposit to complete staking pool creation"
  ensure ('.' ∉ stakingPoolId.toList) "The staking pool ID can't contain `.`"
  let stakingPoolAccountId ← expect
    (parseAccountId (poolAccountId env.currentAccountId stakingPoolId))
    "called `Result::unwrap()` on an `Err` value"
  ensure (isValidAccountId stakingPoolAccountId) "The staking pool account ID is invalid"
  ensure (isValidAccountId ownerId) "The owner account ID is invalid"
  rewardFeeFraction.assertValid
  ensure (stakingPoolAccountId ∉ s.stakingPoolAccountIds)
    "The staking pool account ID already exists"
  return ({ s with
      stakingPoolAccountIds := insert stakingPoolAccountId s.stakingPoolAccountIds },
    .createPool stakingPoolAccountId { ownerId, stakePublicKey, rewardFeeFraction }
      env.attachedDeposit env.predecessorAccountId)

/-- The callback after the creation of a pool: calls `add_staking_pool` if it succeeded, returns
the deposit otherwise. -/
def onStakingPoolCreate (currentAccountId callerAccountId stakingPoolAccountId : AccountId)
    (attachedDeposit : ℕ) (predecessorAccountId : AccountId) (stakingPoolCreated : Bool) :
    Exec (StakingPoolFactory × Receipt) := do
  ensure (callerAccountId = currentAccountId) "assertion `left == right` failed"
  if stakingPoolCreated then
    -- The call goes to the current account, not to the account of the whitelist.
    return (s, .addStakingPool currentAccountId stakingPoolAccountId)
  else
    return ({ s with
        stakingPoolAccountIds := s.stakingPoolAccountIds.erase stakingPoolAccountId },
      .transfer predecessorAccountId attachedDeposit)

end StakingPoolFactory

section Specs

variable {s t : StakingPoolFactory} {r : Receipt}

/-- A pool is requested once: its id is new to the list. -/
theorem createStakingPool_cases {env : Env} {stakingPoolId ownerId : AccountId} {key : PublicKey}
    {fee : StakingPool.RewardFeeFraction} {id : AccountId}
    (hid : id = StakingPoolFactory.poolAccountId env.currentAccountId stakingPoolId)
    (h : s.createStakingPool env stakingPoolId ownerId key fee = .ok (t, r)) :
    id ∉ s.stakingPoolAccountIds ∧
      t = { s with stakingPoolAccountIds := insert id s.stakingPoolAccountIds } ∧
      r = .createPool id ⟨ownerId, key, fee⟩ env.attachedDeposit env.predecessorAccountId := by
  subst hid
  simp only [StakingPoolFactory.createStakingPool, bind_eq_ok, ensure_eq_ok, expect_eq_ok,
    pure_eq_ok, parseAccountId_eq_some] at h
  obtain ⟨-, -, -, -, id, ⟨-, rfl⟩, -, -, -, -, -, -, -, hnew, h⟩ := h
  obtain ⟨rfl, rfl⟩ := Prod.mk.inj h
  exact ⟨hnew, rfl, rfl⟩

/-- The callback never panics when the factory calls it. -/
theorem onStakingPoolCreate_self (s : StakingPoolFactory) (current id : AccountId) (deposit : ℕ)
    (p : AccountId) (created : Bool) :
    s.onStakingPoolCreate current current id deposit p created = .ok
      (if created then (s, .addStakingPool current id)
        else ({ s with stakingPoolAccountIds := s.stakingPoolAccountIds.erase id },
          .transfer p deposit)) := by
  cases created <;>
    simp [StakingPoolFactory.onStakingPoolCreate, ensure, bind, Except.bind, pure, Except.pure]

end Specs

/-! ## The system -/

/-- The factory and the whitelist contract, with the receipts in flight. -/
structure World where
  factoryAccountId : AccountId
  factory : StakingPoolFactory
  whitelist : WhitelistContract
  receipts : List Receipt

/-- What may happen next. -/
inductive Label
  /-- A call of `create_staking_pool`. -/
  | create (env : Env) (stakingPoolId ownerId : AccountId) (stakePublicKey : PublicKey)
      (rewardFeeFraction : StakingPool.RewardFeeFraction)
  /-- The execution of a receipt. The creation of an account may fail, and a transfer back to a
  caller, which nobody awaits; the other receipts are calls of the two contracts. -/
  | deliver (i : ℕ) (succeeded : Bool)
  /-- A call of the whitelist contract by another account. -/
  | whitelist (predecessorAccountId : AccountId) (method : Whitelist.Method)
  deriving DecidableEq, Repr

/-- A call of `add_staking_pool` by the factory. Only the whitelist contract has the method, and
where it panics nothing changes. -/
def World.addStakingPool (w : World) (receiver stakingPoolAccountId : AccountId) : World :=
  if receiver = w.factory.stakingPoolWhitelistAccountId then
    match w.whitelist.addStakingPool w.factoryAccountId stakingPoolAccountId with
    | .ok (whitelist, _) => { w with whitelist }
    | .error _ => w
  else w

/-- The execution of a receipt that has left the queue. -/
def World.execute (w : World) (succeeded : Bool) : Receipt → World
  | .createPool id _ attachedDeposit predecessorAccountId =>
    { w with receipts :=
        w.receipts ++ [.onStakingPoolCreate id attachedDeposit predecessorAccountId succeeded] }
  | .onStakingPoolCreate id attachedDeposit predecessorAccountId created =>
    match w.factory.onStakingPoolCreate w.factoryAccountId w.factoryAccountId id attachedDeposit
      predecessorAccountId created with
    | .ok (factory, receipt) => { w with factory, receipts := w.receipts ++ [receipt] }
    | .error _ => w
  | .addStakingPool receiver id => w.addStakingPool receiver id
  | .transfer _ _ => w

/-- The factory and the whitelist as a machine. -/
def system : Machine World Label String where
  step w l :=
    match l with
    | .create env stakingPoolId ownerId stakePublicKey rewardFeeFraction => do
      ensure (env.currentAccountId = w.factoryAccountId) "The receipt is for another account"
      let (factory, receipt) ← w.factory.createStakingPool env stakingPoolId ownerId
        stakePublicKey rewardFeeFraction
      return { w with factory, receipts := w.receipts ++ [receipt] }
    | .deliver i succeeded => do
      let (receipt, receipts) ← expect (takeAt w.receipts i) "No such receipt"
      return { w with receipts }.execute succeeded receipt
    | .whitelist predecessorAccountId method => do
      ensure (predecessorAccountId ≠ w.factoryAccountId) "The factory calls by its receipts"
      let (whitelist, _) ← w.whitelist.call predecessorAccountId method
      return { w with whitelist }

end UncContracts.PoolFactory
