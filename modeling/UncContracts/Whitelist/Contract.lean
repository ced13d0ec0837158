import Mathlib.Data.Finset.Basic
import UncContracts.Foundation.Panic
import UncContracts.Sdk.Env

/-!
# The whitelist contract

The foundation keeps the approved staking pools and the factories that may approve pools of their
own.

## Main definitions

* `WhitelistContract`: the contract's state
* `Method`, `WhitelistContract.call`: the methods that change it
-/

namespace UncContracts.Whitelist

open Foundation

/-- The contract's state. -/
structure WhitelistContract where
  foundationAccountId : AccountId
  /-- The approved staking pools. -/
  whitelist : Finset AccountId
  /-- The factories that may approve staking pools. -/
  factoryWhitelist : Finset AccountId
  deriving DecidableEq

namespace WhitelistContract

def new (stateExists : Bool) (foundationAccountId : AccountId) : Exec WhitelistContract := do
  ensure (stateExists = false) "Already initialized"
  ensure (isValidAccountId foundationAccountId) "The UNC Foundation account ID is invalid"
  return { foundationAccountId, whitelist := ∅, factoryWhitelist := ∅ }

variable (s : WhitelistContract)

/-- Whether the staking pool is whitelisted. -/
def isWhitelisted (stakingPoolAccountId : AccountId) : Exec Bool := do
  ensure (isValidAccountId stakingPoolAccountId) "The given account ID is invalid"
  return stakingPoolAccountId ∈ s.whitelist

/-- Whether the factory is whitelisted. -/
def isFactoryWhitelisted (factoryAccountId : AccountId) : Exec Bool := do
  ensure (isValidAccountId factoryAccountId) "The given account ID is invalid"
  return factoryAccountId ∈ s.factoryWhitelist

def assertCalledByFoundation (predecessorAccountId : AccountId) : Exec Unit :=
  ensure (predecessorAccountId = s.foundationAccountId) "Can only be called by UNC Foundation"

/-- Whitelists a staking pool; for the foundation and the whitelisted factories. -/
def addStakingPool (predecessorAccountId stakingPoolAccountId : AccountId) :
    Exec (WhitelistContract × Bool) := do
  ensure (isValidAccountId stakingPoolAccountId) "The given account ID is invalid"
  if predecessorAccountId ∉ s.factoryWhitelist then
    s.assertCalledByFoundation predecessorAccountId
  return ({ s with whitelist := insert stakingPoolAccountId s.whitelist },
    stakingPoolAccountId ∉ s.whitelist)

/-- Removes a staking pool; for the foundation. -/
def removeStakingPool (predecessorAccountId stakingPoolAccountId : AccountId) :
    Exec (WhitelistContract × Bool) := do
  s.assertCalledByFoundation predecessorAccountId
  ensure (isValidAccountId stakingPoolAccountId) "The given account ID is invalid"
  return ({ s with whitelist := s.whitelist.erase stakingPoolAccountId },
    stakingPoolAccountId ∈ s.whitelist)

/-- Whitelists a factory; for the foundation. -/
def addFactory (predecessorAccountId factoryAccountId : AccountId) :
    Exec (WhitelistContract × Bool) := do
  ensure (isValidAccountId factoryAccountId) "The given account ID is invalid"
  s.assertCalledByFoundation predecessorAccountId
  return ({ s with factoryWhitelist := insert factoryAccountId s.factoryWhitelist },
    factoryAccountId ∉ s.factoryWhitelist)

/-- Removes a factory; for the foundation. -/
def removeFactory (predecessorAccountId factoryAccountId : AccountId) :
    Exec (WhitelistContract × Bool) := do
  s.assertCalledByFoundation predecessorAccountId
  ensure (isValidAccountId factoryAccountId) "The given account ID is invalid"
  return ({ s with factoryWhitelist := s.factoryWhitelist.erase factoryAccountId },
    factoryAccountId ∈ s.factoryWhitelist)

end WhitelistContract

/-- The methods that change the contract, with their arguments. -/
inductive Method
  | addStakingPool (stakingPoolAccountId : AccountId)
  | removeStakingPool (stakingPoolAccountId : AccountId)
  | addFactory (factoryAccountId : AccountId)
  | removeFactory (factoryAccountId : AccountId)
  deriving DecidableEq, Repr

/-- A call of a method. -/
def WhitelistContract.call (s : WhitelistContract) (predecessorAccountId : AccountId) :
    Method → Exec (WhitelistContract × Bool)
  | .addStakingPool id => s.addStakingPool predecessorAccountId id
  | .removeStakingPool id => s.removeStakingPool predecessorAccountId id
  | .addFactory id => s.addFactory predecessorAccountId id
  | .removeFactory id => s.removeFactory predecessorAccountId id

section Specs

variable {s t : WhitelistContract} {p id : AccountId} {b : Bool}

theorem addStakingPool_whitelist (h : s.addStakingPool p id = .ok (t, b)) :
    t.whitelist = insert id s.whitelist := by
  obtain ⟨-, -, h⟩ := bind_eq_ok.mp h
  split at h
  · simp only [bind_eq_ok, pure_eq_ok] at h
    obtain ⟨-, -, h⟩ := h
    obtain ⟨rfl, -⟩ := Prod.mk.inj h
    rfl
  · obtain ⟨rfl, -⟩ := Prod.mk.inj (pure_eq_ok.mp h)
    rfl

theorem addFactory_whitelist (h : s.addFactory p id = .ok (t, b)) : t.whitelist = s.whitelist := by
  obtain ⟨-, -, h⟩ := bind_eq_ok.mp h
  obtain ⟨-, -, h⟩ := bind_eq_ok.mp h
  obtain ⟨rfl, -⟩ := Prod.mk.inj (pure_eq_ok.mp h)
  rfl

theorem removeFactory_whitelist (h : s.removeFactory p id = .ok (t, b)) :
    t.whitelist = s.whitelist := by
  obtain ⟨-, -, h⟩ := bind_eq_ok.mp h
  obtain ⟨-, -, h⟩ := bind_eq_ok.mp h
  obtain ⟨rfl, -⟩ := Prod.mk.inj (pure_eq_ok.mp h)
  rfl

/-- A call that removes no pool adds the pool it names, or none. -/
theorem mem_whitelist_of_call {m : Method} (h : s.call p m = .ok (t, b))
    (pool : AccountId) (hkeep : ∀ pool, m ≠ .removeStakingPool pool) :
    pool ∈ t.whitelist ↔ pool ∈ s.whitelist ∨ m = .addStakingPool pool := by
  cases m with
  | addStakingPool id =>
    rw [addStakingPool_whitelist h, Finset.mem_insert]
    constructor
    · rintro (rfl | hmem)
      · exact .inr rfl
      · exact .inl hmem
    · rintro (hmem | heq)
      · exact .inr hmem
      · exact .inl (Method.addStakingPool.inj heq).symm
  | removeStakingPool id => exact absurd rfl (hkeep id)
  | addFactory id => simp [addFactory_whitelist h]
  | removeFactory id => simp [removeFactory_whitelist h]

end Specs

end UncContracts.Whitelist
