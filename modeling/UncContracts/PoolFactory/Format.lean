import UncContracts.PoolFactory.Whitelisting
import UncContracts.Sdk.Arguments
import UncContracts.StakingPool.SharePrice

/-!
# The format of a pool's arguments

The staking pool factory and the staking pool each declare the arguments of a pool's
initialization. The factory checks what the pool checks, so that a pool is always initialized where
its account does not stake, and it starts with the tokens that guarantee the share price.

## Main definitions

* `RewardFeeFraction.toJson`, `StakingPoolArgs.toJson`: what the factory passes
* `NewArguments`, `StakingContract.newCall`: what the pool reads, and its initialization from that
* `CreateArguments`, `createCall`: the arguments of a creation, and the creation from their text

## Main results

* `newArguments_toJson`: the pool reads what the factory passes
* `created_pool_initializes`: a pool that the factory creates is always initialized
-/

namespace UncContracts

open Foundation

/-! ## What the pool reads -/

namespace StakingPool

/-- The JSON value of a fraction. -/
def RewardFeeFraction.toJson (f : RewardFeeFraction) : Json :=
  .object [("numerator", .number f.numerator 0), ("denominator", .number f.denominator 0)]

def RewardFeeFraction.ofJson (j : Json) : Option RewardFeeFraction :=
  (j.decodePair "numerator" "denominator" (Json.decodeNat u32Max) (Json.decodeNat u32Max)).map
    fun (numerator, denominator) => { numerator, denominator }

/-- The parts of a fraction fit their type. -/
structure RewardFeeFraction.Fits (f : RewardFeeFraction) : Prop where
  numerator_le : f.numerator ≤ u32Max
  denominator_le : f.denominator ≤ u32Max

theorem RewardFeeFraction.ofJson_toJson {f : RewardFeeFraction} (h : f.Fits) :
    RewardFeeFraction.ofJson f.toJson = some f := by
  rw [RewardFeeFraction.ofJson, RewardFeeFraction.toJson, Json.decodePair_object (by decide),
    Json.decodeNat_ofNat.mpr h.numerator_le, Json.decodeNat_ofNat.mpr h.denominator_le]
  rfl

theorem RewardFeeFraction.fits_of_ofJson {j : Json} {f : RewardFeeFraction}
    (h : RewardFeeFraction.ofJson j = some f) : f.Fits := by
  obtain ⟨⟨numerator, denominator⟩, hread, rfl⟩ := Option.map_eq_some_iff.mp h
  obtain ⟨_, _, hnumerator, hdenominator⟩ := Json.exists_of_decodePair hread
  exact ⟨Json.le_of_decodeNat hnumerator, Json.le_of_decodeNat hdenominator⟩

/-- The arguments of the initialization, as the pool declares them. -/
structure NewArguments where
  ownerId : AccountId
  stakePublicKey : PublicKey
  rewardFeeFraction : RewardFeeFraction
  deriving DecidableEq, Repr

variable (parsePublicKey : String → Option PublicKey)

/-- Reads the arguments of the initialization. -/
def NewArguments.ofJson (j : Json) : Option NewArguments :=
  match j.decodeStruct [("owner_id", false), ("stake_public_key", false),
    ("reward_fee_fraction", false)] with
  | some [owner, key, fee] => do
    let ownerId ← owner.decodeString parseAccountId
    let stakePublicKey ← key.decodeString parsePublicKey
    let rewardFeeFraction ← RewardFeeFraction.ofJson fee
    return {
      ownerId
      stakePublicKey
      rewardFeeFraction }
  | _ => none

/-- The initialization of a pool, from its arguments' JSON value. -/
def StakingContract.newCall (env : Env) (stateExists : Bool) (arguments : Json) :
    Exec (StakingContract × List Promise) := do
  let a ← expect (NewArguments.ofJson parsePublicKey arguments)
    "Failed to deserialize input from JSON."
  StakingContract.new env stateExists a.ownerId a.stakePublicKey a.rewardFeeFraction

/-- A pool accepts an owner's account and a valid fee, wherever its account does not stake. -/
theorem new_accepts {env : Env} {owner : AccountId} {fee : RewardFeeFraction}
    (howner : isValidAccountId owner) (hfee : fee.assertValid = .ok ())
    (hlocked : env.accountLockedBalance = 0) (key : PublicKey) :
    ∃ pool promises, StakingContract.new env false owner key fee = .ok (pool, promises) ∧
      pool.ownerId = owner ∧ pool.stakePublicKey = key ∧ pool.rewardFeeFraction = fee ∧
      pool.lastTotalBalance = env.accountBalance := by
  simp only [StakingContract.new, bind_eq_ok, ensure_eq_ok, pure_eq_ok]
  exact ⟨_, _, ⟨(), trivial, (), hfee, (), howner, (), hlocked, rfl⟩, rfl, rfl, rfl, rfl⟩

end StakingPool

/-! ## What the factory passes -/

namespace PoolFactory

open StakingPool

/-- The JSON value of the arguments of the `new` call. -/
def StakingPoolArgs.toJson (args : StakingPoolArgs) : Json :=
  .object [("owner_id", .string args.ownerId), ("stake_public_key", .string args.stakePublicKey),
    ("reward_fee_fraction", args.rewardFeeFraction.toJson)]

/-- The arguments of a creation. -/
structure CreateArguments where
  stakingPoolId : AccountId
  ownerId : AccountId
  stakePublicKey : PublicKey
  rewardFeeFraction : RewardFeeFraction
  deriving DecidableEq, Repr

section Reading

variable (parsePublicKey : String → Option PublicKey)

/-- Reads the arguments of a creation. -/
def CreateArguments.ofJson (j : Json) : Option CreateArguments :=
  match j.decodeStruct [("staking_pool_id", false), ("owner_id", false),
    ("stake_public_key", false), ("reward_fee_fraction", false)] with
  | some [pool, owner, key, fee] => do
    let stakingPoolId ← pool.decodeString parseAccountId
    let ownerId ← owner.decodeString parseAccountId
    let stakePublicKey ← key.decodeString parsePublicKey
    let rewardFeeFraction ← RewardFeeFraction.ofJson fee
    return {
      stakingPoolId
      ownerId
      stakePublicKey
      rewardFeeFraction }
  | _ => none

/-- A creation, from its arguments' JSON value. -/
def StakingPoolFactory.createCall (s : StakingPoolFactory) (env : Env) (arguments : Json) :
    Exec (StakingPoolFactory × Receipt) := do
  let a ← expect (CreateArguments.ofJson parsePublicKey arguments)
    "Failed to deserialize input from JSON."
  s.createStakingPool env a.stakingPoolId a.ownerId a.stakePublicKey a.rewardFeeFraction

end Reading

section Creations

variable {parsePublicKey : String → Option PublicKey} {env : Env} {s t : StakingPoolFactory}
  {r : Receipt}

/-- The pool reads what the factory passes. -/
theorem newArguments_toJson (args : StakingPoolArgs) (howner : isValidAccountId args.ownerId)
    (hkey : parsePublicKey args.stakePublicKey = some args.stakePublicKey)
    (hfee : args.rewardFeeFraction.Fits) :
    NewArguments.ofJson parsePublicKey args.toJson =
      some ⟨args.ownerId, args.stakePublicKey, args.rewardFeeFraction⟩ := by
  have hstruct : args.toJson.decodeStruct [("owner_id", false), ("stake_public_key", false),
      ("reward_fee_fraction", false)] = _ :=
    Json.decodeStruct_object [.string args.ownerId, .string args.stakePublicKey,
      args.rewardFeeFraction.toJson] rfl (by decide)
  unfold NewArguments.ofJson
  rw [hstruct]
  simp only [Json.decodeString, parseAccountId_eq_some.mpr ⟨howner, rfl⟩, hkey,
    RewardFeeFraction.ofJson_toJson hfee]
  rfl

/-- What is read as the arguments of a creation: the key is the text of one, and the fee fits. -/
theorem CreateArguments.fits_of_ofJson
    (hparse : ∀ text key, parsePublicKey text = some key → parsePublicKey key = some key)
    {j : Json} {a : CreateArguments} (h : CreateArguments.ofJson parsePublicKey j = some a) :
    parsePublicKey a.stakePublicKey = some a.stakePublicKey ∧ a.rewardFeeFraction.Fits := by
  unfold CreateArguments.ofJson at h
  split at h
  · simp only [Option.bind_eq_bind, Option.bind_eq_some_iff, Option.pure_def,
      Option.some.injEq] at h
    obtain ⟨_, -, _, -, key, hkey, _, hfee, rfl⟩ := h
    refine ⟨?_, RewardFeeFraction.fits_of_ofJson hfee⟩
    obtain ⟨text, htext⟩ := Json.exists_of_decodeString hkey
    exact hparse text key htext
  · cases h

/-- **Creations.** The pool of the new account reads the arguments that the factory passes with an
accepted creation, and accepts them wherever its account has the tokens of the creation and does not
stake. It starts with the owner, the key and the fee that were asked for, and holds the tokens that
guarantee the share price. -/
theorem created_pool_initializes (parsePublicKey : String → Option PublicKey)
    (hparse : ∀ text key, parsePublicKey text = some key → parsePublicKey key = some key)
    (s : StakingPoolFactory) (env : Env) (arguments : Json) (t : StakingPoolFactory) (r : Receipt)
    (hcreate : s.createCall parsePublicKey env arguments = .ok (t, r)) :
    ∃ a id args, CreateArguments.ofJson parsePublicKey arguments = some a ∧
      id = StakingPoolFactory.poolAccountId env.currentAccountId a.stakingPoolId ∧
      r = .createPool id args env.attachedDeposit env.predecessorAccountId ∧
      ∀ env' : Env, env.attachedDeposit ≤ env'.accountBalance → env'.accountLockedBalance = 0 →
        ∃ pool promises,
          StakingContract.newCall parsePublicKey env' false args.toJson = .ok (pool, promises) ∧
          Deployed pool ∧ pool.ownerId = a.ownerId ∧ pool.stakePublicKey = a.stakePublicKey ∧
          pool.rewardFeeFraction = a.rewardFeeFraction ∧
          STAKE_SHARE_PRICE_GUARANTEE_FUND < pool.lastTotalBalance := by
  simp only [StakingPoolFactory.createCall, StakingPoolFactory.createStakingPool, bind_eq_ok,
    ensure_eq_ok, expect_eq_ok, pure_eq_ok, parseAccountId_eq_some] at hcreate
  obtain ⟨a, hread, _, hdeposit, _, -, id, ⟨-, hid⟩, _, -, _, howner, _, hvalid, _, -, h⟩ := hcreate
  obtain ⟨-, rfl⟩ := Prod.mk.inj h
  obtain ⟨hkey, hfee⟩ := CreateArguments.fits_of_ofJson hparse hread
  refine ⟨a, id, _, hread, hid.symm, rfl, ?_⟩
  intro env' hbalance hlocked
  obtain ⟨pool, promises, hnew, hownerId, hkey', hfee', hbalance'⟩ :=
    new_accepts howner hvalid hlocked a.stakePublicKey
  have hfund : STAKE_SHARE_PRICE_GUARANTEE_FUND < MIN_ATTACHED_BALANCE := by decide
  have hdeployed : Deployed pool :=
    ⟨env', false, a.ownerId, a.stakePublicKey, a.rewardFeeFraction, promises, hnew⟩
  refine ⟨pool, promises, ?_, hdeployed, hownerId, hkey', hfee', ?_⟩
  · unfold StakingContract.newCall
    rw [newArguments_toJson ⟨a.ownerId, a.stakePublicKey, a.rewardFeeFraction⟩ howner hkey hfee]
    exact hnew
  · rw [hbalance']
    exact hfund.trans_le (hdeposit.trans hbalance)

/-- A creation with the minimal deposit, in any order of the fields. -/
def sampleCreation : Json :=
  .object [("reward_fee_fraction", .object [("denominator", .number 100 0),
      ("numerator", .number 10 0)]),
    ("stake_public_key", .string "KuTCtARNzxZQ3YvXDeLjx83FDqxv2SdQTSbiq876zR7"),
    ("owner_id", .string "alice"), ("staking_pool_id", .string "pool")]

/-- The key of the creation. -/
def sampleKey : PublicKey := "ed25519:KuTCtARNzxZQ3YvXDeLjx83FDqxv2SdQTSbiq876zR7"

/-- Reads the key, with the name of its curve or without. -/
def sampleParse (text : String) : Option PublicKey :=
  if text = sampleKey ∨ "ed25519:" ++ text = sampleKey then some sampleKey else none

theorem sampleParse_of_sampleParse (text : String) (key : PublicKey)
    (h : sampleParse text = some key) : sampleParse key = some key := by
  unfold sampleParse at h
  split at h
  · cases h
    exact if_pos (.inl rfl)
  · cases h

theorem created_pool_initializes_sampleCreation :
    ∃ a id args, CreateArguments.ofJson sampleParse sampleCreation = some a ∧
      id = StakingPoolFactory.poolAccountId "factory" a.stakingPoolId ∧
      (⟨"whitelist", ∅⟩ : StakingPoolFactory).createCall sampleParse sampleEnv sampleCreation =
        .ok (⟨"whitelist", {"pool.factory"}⟩, .createPool id args MIN_ATTACHED_BALANCE "alice") ∧
      ∀ env' : Env, MIN_ATTACHED_BALANCE ≤ env'.accountBalance → env'.accountLockedBalance = 0 →
        ∃ pool promises,
          StakingContract.newCall sampleParse env' false args.toJson = .ok (pool, promises) ∧
          Deployed pool ∧ pool.ownerId = a.ownerId ∧ pool.stakePublicKey = a.stakePublicKey ∧
          pool.rewardFeeFraction = a.rewardFeeFraction ∧
          STAKE_SHARE_PRICE_GUARANTEE_FUND < pool.lastTotalBalance := by
  have hcreate : (⟨"whitelist", ∅⟩ : StakingPoolFactory).createCall sampleParse sampleEnv
      sampleCreation = .ok (⟨"whitelist", {"pool.factory"}⟩, .createPool "pool.factory"
        ⟨"alice", sampleKey, ⟨10, 100⟩⟩ MIN_ATTACHED_BALANCE "alice") := by
    decide +kernel
  obtain ⟨a, id, args, hread, hid, heq, h⟩ := created_pool_initializes sampleParse
    sampleParse_of_sampleParse _ sampleEnv sampleCreation _ _ hcreate
  exact ⟨a, id, args, hread, hid, heq ▸ hcreate, h⟩

end Creations

end PoolFactory

end UncContracts
