import UncContracts.StakingPool.SharePrice

/-!
# The stake request of the staking pool

What the pool stakes is what it last asked for. The books change in many places: an action moves
tokens, and the reward that the ping before it distributes changes the staked balance unseen. Each
method decides by itself whether to stake again. Here: as long as no stake action fails, the last
request always says what the books say.

## Main definitions

* `lastStake`: the amount and the key of the last stake promise of a list
* `issued`: the promises of a step
* `Follows`: a request that says what the books say
* `Asks`: what a call does to the last request

## Main results

* `asks_of_call`: a call asks for the new books, or for nothing and keeps them
* `lastStake_of_run`: after every run without a failed stake action the last request follows the
  books
-/

namespace UncContracts.StakingPool

open Foundation StakingContract

/-- The amount and the key of a stake promise. -/
def Promise.stakeRequest : Promise → Option (ℕ × PublicKey)
  | .stake amount stakePublicKey _ => some (amount, stakePublicKey)
  | _ => none

/-- The most recent stake promise of a list, by its amount and key. -/
def lastStake (promises : List Promise) : Option (ℕ × PublicKey) :=
  (promises.filterMap Promise.stakeRequest).getLast?

@[simp] theorem lastStake_nil : lastStake [] = none := rfl

theorem lastStake_append (ps qs : List Promise) :
    lastStake (ps ++ qs) = (lastStake qs).or (lastStake ps) := by
  rw [lastStake, List.filterMap_append, List.getLast?_append]
  rfl

/-- The promises that a step of the contract issued. -/
def issued (x : Step StakingContract Call) : List Promise :=
  match x.before.call x.label with
  | .ok (_, promises) => promises
  | .error _ => []

theorem issued_of_call {s t : StakingContract} {c : Call} {promises : List Promise}
    (h : s.call c = .ok (t, promises)) : issued ⟨s, c, t⟩ = promises := by
  simp only [issued, h]

/-- The request says what the books say: nothing is staked while the pool is paused, and the total
staked balance with the current key otherwise. -/
def Follows (t : StakingContract) (request : ℕ × PublicKey) : Prop :=
  if t.paused then request.1 = 0 else request = (t.totalStakedBalance, t.stakePublicKey)

/-- The staked balance and the key are kept while the pool stakes. -/
structure KeepsStake (s t : StakingContract) : Prop where
  paused : t.paused = s.paused
  totalStakedBalance : s.paused = false → t.totalStakedBalance = s.totalStakedBalance
  stakePublicKey : s.paused = false → t.stakePublicKey = s.stakePublicKey

theorem KeepsStake.refl (s : StakingContract) : KeepsStake s s := ⟨rfl, fun _ => rfl, fun _ => rfl⟩

/-- Books that are kept are followed by the same requests. -/
theorem KeepsStake.follows {s t : StakingContract} (h : KeepsStake s t) {request : ℕ × PublicKey}
    (hs : Follows s request) : Follows t request := by
  unfold Follows at hs ⊢
  rw [h.paused]
  cases hpaused : s.paused with
  | true =>
    rw [hpaused] at hs
    exact hs
  | false =>
    rw [hpaused] at hs
    rw [h.totalStakedBalance hpaused, h.stakePublicKey hpaused]
    exact hs

/-- From `s` to `t` the contract asks for the books of `t`, or for nothing and keeps them. -/
inductive Asks (s t : StakingContract) (promises : List Promise) : Prop
  | request (request : ℕ × PublicKey) (hlast : lastStake promises = some request)
      (h : Follows t request)
  | silent (hlast : lastStake promises = none) (h : KeepsStake s t)

/-! ## The internal methods -/

/-- The paused flag and the key, which no internal method touches. -/
structure SameStaking (s t : StakingContract) : Prop where
  paused : t.paused = s.paused
  stakePublicKey : t.stakePublicKey = s.stakePublicKey

theorem SameStaking.refl (s : StakingContract) : SameStaking s s := ⟨rfl, rfl⟩

theorem SameStaking.trans {s t u : StakingContract} (h : SameStaking s t) (h' : SameStaking t u) :
    SameStaking s u :=
  ⟨h'.paused.trans h.paused, h'.stakePublicKey.trans h.stakePublicKey⟩

theorem sameStaking_internalSaveAccount (s : StakingContract) (id : AccountId) (a : Account) :
    SameStaking s (s.internalSaveAccount id a) := by
  unfold internalSaveAccount
  split
  · exact ⟨rfl, rfl⟩
  · exact ⟨rfl, rfl⟩

theorem sameStaking_of_distributeReward {s t : StakingContract} {reward : ℕ}
    (h : s.distributeReward reward = .ok t) : SameStaking s t := by
  simp only [distributeReward, bind_eq_ok, pure_eq_ok] at h
  obtain ⟨fee, -, n, -, rfl⟩ := h
  split
  · have hsave := sameStaking_internalSaveAccount
      { s with totalStakedBalance := saturatingAdd s.totalStakedBalance (reward - fee) } s.ownerId
      { s.internalGetAccount s.ownerId with
        stakeShares := saturatingAdd (s.internalGetAccount s.ownerId).stakeShares n }
    exact ⟨hsave.paused, hsave.stakePublicKey⟩
  · exact ⟨rfl, rfl⟩

/-- A ping that does not find a new epoch keeps the staked balance. -/
theorem sameStaking_of_internalPing {s t : StakingContract} {env : Env} {b : Bool}
    (h : s.internalPing env = .ok (t, b)) :
    SameStaking s t ∧ (b = false → t.totalStakedBalance = s.totalStakedBalance) := by
  unfold internalPing at h
  split at h
  · obtain ⟨rfl, -⟩ := Prod.mk.inj (pure_eq_ok.mp h)
    exact ⟨.refl s, fun _ => rfl⟩
  · simp only [bind_eq_ok, ensure_eq_ok] at h
    obtain ⟨-, -, h⟩ := h
    split at h
    · obtain ⟨u, hu, h⟩ := bind_eq_ok.mp h
      obtain ⟨rfl, rfl⟩ := Prod.mk.inj (pure_eq_ok.mp h)
      have hrewarded := sameStaking_of_distributeReward hu
      exact ⟨⟨hrewarded.paused, hrewarded.stakePublicKey⟩, fun hb => by cases hb⟩
    · obtain ⟨u, hu, h⟩ := bind_eq_ok.mp h
      obtain rfl := pure_eq_ok.mp hu
      obtain ⟨rfl, rfl⟩ := Prod.mk.inj (pure_eq_ok.mp h)
      exact ⟨⟨rfl, rfl⟩, fun hb => by cases hb⟩

theorem sameStaking_internalDeposit (s : StakingContract) (env : Env) :
    SameStaking s (s.internalDeposit env).1 :=
  have hsave := sameStaking_internalSaveAccount s env.predecessorAccountId
    { s.internalGetAccount env.predecessorAccountId with
      unstaked := saturatingAdd (s.internalGetAccount env.predecessorAccountId).unstaked
        env.attachedDeposit }
  ⟨hsave.paused, hsave.stakePublicKey⟩

theorem sameStaking_credited (s : StakingContract) (c : Call) : SameStaking s (credited s c) := by
  unfold credited
  split
  · exact sameStaking_internalDeposit s c.env
  · exact .refl s

/-- A withdrawal issues one transfer and stakes nothing. -/
theorem sameStaking_of_internalWithdraw {s t : StakingContract} {env : Env} {amount : ℕ}
    {promises : List Promise} (h : s.internalWithdraw env amount = .ok (t, promises)) :
    SameStaking s t ∧ lastStake promises = none := by
  simp only [internalWithdraw, bind_eq_ok, ensure_eq_ok, pure_eq_ok] at h
  obtain ⟨-, -, -, -, -, -, h⟩ := h
  obtain ⟨rfl, rfl⟩ := Prod.mk.inj h
  have hsave := sameStaking_internalSaveAccount s env.predecessorAccountId
    { s.internalGetAccount env.predecessorAccountId with
      unstaked := (s.internalGetAccount env.predecessorAccountId).unstaked - amount }
  exact ⟨⟨hsave.paused, hsave.stakePublicKey⟩, rfl⟩

theorem sameStaking_of_internalStake {s t : StakingContract} {env : Env} {amount : ℕ}
    (h : s.internalStake env amount = .ok t) : SameStaking s t := by
  simp only [internalStake, bind_eq_ok, ensure_eq_ok, pure_eq_ok] at h
  obtain ⟨-, -, n, -, -, -, charge, -, -, -, -, -, up, -, rfl⟩ := h
  have hsave := sameStaking_internalSaveAccount s env.predecessorAccountId
    { s.internalGetAccount env.predecessorAccountId with
      unstaked := (s.internalGetAccount env.predecessorAccountId).unstaked - charge
      stakeShares := saturatingAdd (s.internalGetAccount env.predecessorAccountId).stakeShares n }
  exact ⟨hsave.paused, hsave.stakePublicKey⟩

theorem sameStaking_of_innerUnstake {s t : StakingContract} {env : Env} {amount : ℕ}
    (h : s.innerUnstake env amount = .ok t) : SameStaking s t := by
  simp only [innerUnstake, bind_eq_ok, ensure_eq_ok, pure_eq_ok] at h
  obtain ⟨-, -, -, -, n, -, -, -, -, -, receive, -, -, -, epoch, -, down, -, rfl⟩ := h
  have hsave := sameStaking_internalSaveAccount s env.predecessorAccountId
    { s.internalGetAccount env.predecessorAccountId with
      stakeShares := saturatingAdd (s.internalGetAccount env.predecessorAccountId).stakeShares n
      unstaked := saturatingAdd (s.internalGetAccount env.predecessorAccountId).unstaked receive
      unstakedAvailableEpochHeight := epoch }
  exact ⟨hsave.paused, hsave.stakePublicKey⟩

/-! ## Restaking -/

/-- A restake asks for the books, unless the pool is paused. -/
theorem asks_internalRestake {s t : StakingContract}
    (h : t.paused = true → s.paused = true) : Asks s t t.internalRestake := by
  cases hpaused : t.paused with
  | false =>
    refine .request (t.totalStakedBalance, t.stakePublicKey) ?_ ?_
    · simp [internalRestake, hpaused, lastStake, Promise.stakeRequest]
    · simp [Follows, hpaused]
  | true =>
    -- Paused before and after, the books do not matter.
    have hbefore := h hpaused
    refine .silent ?_ ⟨hpaused.trans hbefore.symm, ?_, ?_⟩
    · simp [internalRestake, hpaused]
    all_goals
      intro hs
      rw [hbefore] at hs
      cases hs

/-- A restake that is left out where the books are kept. -/
theorem asks_restake_if {s t : StakingContract} {b : Bool} (h : SameStaking s t)
    (hkept : b = false → t.totalStakedBalance = s.totalStakedBalance) :
    Asks s t (if b then t.internalRestake else []) := by
  cases b with
  | true => exact asks_internalRestake fun hpaused => h.paused.symm.trans hpaused
  | false => exact .silent rfl ⟨h.paused, fun _ => hkept rfl, fun _ => h.stakePublicKey⟩

/-- Other promises do not stand in the way of a request after them. -/
theorem Asks.append {s t : StakingContract} {ps qs : List Promise} (hps : lastStake ps = none)
    (h : Asks s t qs) : Asks s t (ps ++ qs) := by
  cases h with
  | request request hlast h =>
    refine .request request ?_ h
    rw [lastStake_append, hlast, Option.some_or]
  | silent hlast h =>
    refine .silent ?_ h
    rw [lastStake_append, hlast, hps, Option.none_or]

/-- A withdrawal issues a transfer before the restake of its ping. -/
theorem asks_of_withdraw {s u v : StakingContract} {env : Env} {b : Bool} {amount : ℕ}
    {ps : List Promise} (hping : s.internalPing env = .ok (u, b))
    (hwithdraw : u.internalWithdraw env amount = .ok (v, ps)) :
    Asks s v (ps ++ if b then v.internalRestake else []) := by
  obtain ⟨hsame, hkept⟩ := sameStaking_of_internalPing hping
  obtain ⟨hsame', hsilent⟩ := sameStaking_of_internalWithdraw hwithdraw
  obtain ⟨-, -, -, -, hpool⟩ := internalWithdraw_spec hwithdraw
  apply Asks.append hsilent
  apply asks_restake_if (hsame.trans hsame')
  intro hb
  exact (congrArg SharePool.assets hpool).trans (hkept hb)

/-! ## Calls -/

/-- **A call asks for the new books.** It asks for nothing only where it keeps them; the callback
of a failed stake action alone asks for something else. -/
theorem asks_of_call {s t : StakingContract} {c : Call} {promises : List Promise}
    (h : s.call c = .ok (t, promises)) (hfail : c.method ≠ .onStakeAction [false]) :
    Asks s t promises := by
  cases called_of_call h with
  | answered succeeded hmethod =>
    cases succeeded with
    | false => exact absurd hmethod hfail
    | true => exact .silent rfl (.refl s)
  | voted votingAccountId isVote => exact .silent rfl (.refl s)
  | pinged rewardFeeFraction hping =>
    obtain ⟨hsame, hkept⟩ := sameStaking_of_internalPing hping
    exact asks_restake_if ⟨hsame.paused, hsame.stakePublicKey⟩ hkept
  | restaked stakePublicKey paused hping hpaused =>
    have hsame := (sameStaking_of_internalPing hping).1
    exact asks_internalRestake fun hnow => hsame.paused.symm.trans (hpaused hnow)
  | @paused u _ hping => exact .request (0, u.stakePublicKey) rfl rfl
  | @deposited u _ hping =>
    obtain ⟨hsame, hkept⟩ := sameStaking_of_internalPing hping
    apply asks_restake_if (hsame.trans (sameStaking_credited u c))
    intro hb
    exact (congrArg SharePool.assets (credited_sharePool u c)).trans (hkept hb)
  | withdrew amount promises hping _ _ haction => exact asks_of_withdraw hping haction
  | @staked u _ _ amount hping _ _ haction =>
    have hsame := ((sameStaking_of_internalPing hping).1.trans (sameStaking_credited u c)).trans
      (sameStaking_of_internalStake haction)
    exact asks_internalRestake fun hpaused => hsame.paused.symm.trans hpaused
  | unstaked amount hping _ _ haction =>
    have hsame := (sameStaking_of_internalPing hping).1.trans (sameStaking_of_innerUnstake haction)
    exact asks_internalRestake fun hpaused => hsame.paused.symm.trans hpaused

/-! ## Runs -/

/-- The last request follows the books. -/
def Requested (history : List Promise) (t : StakingContract) : Prop :=
  ∃ request, lastStake history = some request ∧ Follows t request

theorem Requested.asks {history promises : List Promise} {s t : StakingContract}
    (h : Requested history s) (hasks : Asks s t promises) : Requested (history ++ promises) t := by
  cases hasks with
  | request request hlast hfollows =>
    refine ⟨request, ?_, hfollows⟩
    rw [lastStake_append, hlast, Option.some_or]
  | silent hlast hkept =>
    obtain ⟨request, hbefore, hfollows⟩ := h
    refine ⟨request, ?_, hkept.follows hfollows⟩
    rw [lastStake_append, hlast, hbefore, Option.none_or]

/-- The initialization asks for the books of the new contract. -/
theorem requested_of_new {env : Env} {stateExists : Bool} {ownerId : AccountId}
    {stakePublicKey : PublicKey} {fraction : RewardFeeFraction} {s : StakingContract}
    {promises : List Promise}
    (h : StakingContract.new env stateExists ownerId stakePublicKey fraction = .ok (s, promises)) :
    Requested promises s := by
  simp only [StakingContract.new, bind_eq_ok, ensure_eq_ok, pure_eq_ok] at h
  obtain ⟨-, -, -, -, -, -, -, -, h⟩ := h
  obtain ⟨rfl, rfl⟩ := Prod.mk.inj h
  exact ⟨_, rfl, rfl⟩

/-- **The stake request follows the books.** In a run in which no stake action fails, the last
stake promise since the initialization is for nothing while the pool is paused, and otherwise for
the total staked balance with the current key. -/
theorem lastStake_of_run {env : Env} {stateExists : Bool} {ownerId : AccountId}
    {stakePublicKey : PublicKey} {fraction : RewardFeeFraction} {s : StakingContract}
    {promises : List Promise}
    (h : StakingContract.new env stateExists ownerId stakePublicKey fraction = .ok (s, promises))
    (calls : List Call)
    (hfail : ∀ x ∈ pool.steps s calls, x.label.method ≠ .onStakeAction [false]) :
    ∃ amount key,
      lastStake (promises ++ (pool.steps s calls).flatMap issued) = some (amount, key) ∧
      ((pool.run s calls).paused = true → amount = 0) ∧
      ((pool.run s calls).paused = false →
        amount = (pool.run s calls).totalStakedBalance ∧
          key = (pool.run s calls).stakePublicKey) := by
  -- The induction is on the run: each step that asks for a stake asks for what its state holds.
  have hrun : Requested (promises ++ (pool.steps s calls).flatMap issued) (pool.run s calls) := by
    refine Machine.run_induction (M := pool) (P := fun hist t =>
      (∀ x ∈ hist, x.label.method ≠ .onStakeAction [false]) →
        Requested (promises ++ hist.flatMap issued) t) ?_ ?_ calls hfail
    · intro _
      simpa using requested_of_new h
    · intro hist a c b ih hstep hall
      obtain ⟨⟨b', ps⟩, hcall, hb⟩ := bind_eq_ok.mp hstep
      obtain rfl := pure_eq_ok.mp hb
      have hasks := asks_of_call hcall (hall ⟨a, c, b'⟩ (by simp))
      have hnext := (ih fun x hx => hall x (by simp [hx])).asks hasks
      rw [List.flatMap_append, List.flatMap_singleton, issued_of_call hcall, ← List.append_assoc]
      exact hnext
  obtain ⟨⟨amount, key⟩, hlast, hfollows⟩ := hrun
  refine ⟨amount, key, hlast, ?_, ?_⟩
  · intro hpaused
    simpa [Follows, hpaused] using hfollows
  · intro hpaused
    simpa [Follows, hpaused] using hfollows

theorem lastStake_smallPool :
    ∃ amount key,
      lastStake (smallPool.internalRestake ++
        (pool.steps smallPool [⟨smallEnv "alice" 10, .depositAndStake⟩]).flatMap issued) =
          some (amount, key) ∧
      ((pool.run smallPool [⟨smallEnv "alice" 10, .depositAndStake⟩]).paused = true →
        amount = 0) ∧
      ((pool.run smallPool [⟨smallEnv "alice" 10, .depositAndStake⟩]).paused = false →
        amount = (pool.run smallPool [⟨smallEnv "alice" 10, .depositAndStake⟩]).totalStakedBalance ∧
          key = (pool.run smallPool [⟨smallEnv "alice" 10, .depositAndStake⟩]).stakePublicKey) :=
  lastStake_of_run
    (show StakingContract.new (smallEnv "factory" 0) false "owner" "key" ⟨1, 10⟩ =
      .ok (smallPool, smallPool.internalRestake) from rfl)
    [⟨smallEnv "alice" 10, .depositAndStake⟩] (by decide)

end UncContracts.StakingPool
