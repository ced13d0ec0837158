import UncContracts.Lockup.PoolBalance
import UncContracts.StakingPool.Claim
import UncContracts.Whitelist.Contract

/-!
# The delegation network

The lockup together with the contracts that it delegates through: the whitelist that it asks, and
any number of staking pools, each at an account of its own. Every receipt of the lockup for one of
these accounts is executed by the contract that is there, which other accounts call as well. The
accounts with none of these contracts may answer anything and keep what they are sent.

## Main definitions

* `Network`, `Label`: the lockup, the whitelist and the pools, and what may happen next
* `hosted`: the execution of a call of the lockup at a pool
* `Network.claimAt`: what the lockup may claim at an account
* `system`: the network as a machine
* `Moves`: what one step does

## Main results

* `moves_of_step`: every step is one of the moves
* `Agrees.step`: the lockup's view of what is held for it is what the pools owe it
-/

namespace UncContracts.Delegation

open Foundation
open Lockup (World ExternalMethod PromiseResult Receipt Outcome LockupContract poolAnswer)
open StakingPool (StakingContract RewardFeeFraction)
open Whitelist (WhitelistContract)

/-- The lockup, the whitelist and the staking pools by their accounts. -/
structure Network where
  lockup : World
  /-- The account of the whitelist. -/
  whitelistId : AccountId
  whitelist : WhitelistContract
  pools : AccountId → Option StakingContract

/-- What may happen next. -/
inductive Label
  /-- The lockup is called or called back, or a receipt is executed that calls no contract. -/
  | lockup (l : Lockup.Label)
  /-- An account with none of the contracts answers a call of the lockup. -/
  | answer (i : ℕ) (result : PromiseResult) (sent : ℕ)
  /-- The whitelist answers a call of the lockup. -/
  | consult (i : ℕ)
  /-- A staking pool executes a call of the lockup. -/
  | execute (i : ℕ) (env : Env)
  /-- Another account calls a staking pool. -/
  | pool (accountId : AccountId) (c : StakingPool.Call)
  /-- The whitelist is called. -/
  | whitelist (predecessorAccountId : AccountId) (method : Whitelist.Method)
  /-- A staking pool is initialized at an account. -/
  | deploy (env : Env) (ownerId : AccountId) (stakePublicKey : PublicKey)
    (rewardFeeFraction : RewardFeeFraction)

/-- The call that a receipt in flight makes, with its receiver and its deposit. -/
def callIn (w : World) (i : ℕ) : Option (AccountId × ExternalMethod × ℕ) :=
  match w.receipts[i]? with
  | some (.promise (.functionCall receiverId method attachedDeposit _)) =>
    some (receiverId, method, attachedDeposit)
  | _ => none

/-- The label calls no contract, and is not about what another account does by itself. -/
def Undirected (w : World) : Lockup.Label → Prop
  | .deliver i _ => callIn w i = none
  | .hold _ _ => False
  | _ => True

instance (w : World) : (l : Lockup.Label) → Decidable (Undirected w l)
  | .deliver i _ => inferInstanceAs (Decidable (callIn w i = none))
  | .hold _ _ => .isFalse id
  | .call _ _ | .resume _ _ | .receive _ => .isTrue trivial

/-! ## What the contracts do -/

/-- The execution of a call of the lockup at a pool. A call that fails, or that sends more than the
pool's account has, returns its deposit. -/
def hosted (s : StakingContract) (env : Env) (method : ExternalMethod) :
    StakingContract × PromiseResult × ℕ :=
  let (t, result, sent) := poolAnswer s env method
  if sent ≤ env.accountBalance then (t, result, sent) else (s, .failed, env.attachedDeposit)

/-- The whitelist's answer to a call of the lockup. It has none of the other methods. -/
def whitelistAnswer (s : WhitelistContract) : ExternalMethod → PromiseResult
  | .isWhitelisted stakingPoolAccountId =>
    match s.isWhitelisted stakingPoolAccountId with
    | .ok isWhitelisted => .successful (.bool isWhitelisted)
    | .error _ => .failed
  | _ => .failed

namespace Network

variable (n : Network)

/-- What the lockup may claim at an account: what the pool there owes it. -/
def claimAt (accountId : AccountId) : ℕ :=
  match n.pools accountId with
  | some s => StakingPool.claim s n.lockup.accountId
  | none => 0

/-- What the lockup may claim at its selected pool. -/
def claimAtPool : ℕ :=
  match n.lockup.contract.getStakingPoolAccountId with
  | some accountId => n.claimAt accountId
  | none => 0

/-- The account has none of the contracts that answer the lockup. A call that the lockup sends to
itself fails. -/
def Foreign (accountId : AccountId) : Prop :=
  n.pools accountId = none ∧ (accountId = n.whitelistId → accountId = n.lockup.accountId)

instance (accountId : AccountId) : Decidable (n.Foreign accountId) :=
  match h : n.pools accountId with
  | none => decidable_of_iff (accountId = n.whitelistId → accountId = n.lockup.accountId)
      ⟨fun hself => ⟨h, hself⟩, fun hforeign => hforeign.2⟩
  | some _ => .isFalse fun hforeign => by cases h.symm.trans hforeign.1

end Network

/-- The network as a machine. -/
def system (sha256 : List UInt8 → Lockup.Hash) : Machine Network Label String where
  step n l :=
    match l with
    | .lockup l => do
      ensure (Undirected n.lockup l) "The receipt is for another contract"
      let lockup ← (Lockup.system sha256).step n.lockup l
      return { n with lockup }
    | .answer i result sent => do
      let (receiverId, _, _) ← expect (callIn n.lockup i) "No such call"
      ensure (n.Foreign receiverId) "The receipt is for another contract"
      let lockup ← (Lockup.system sha256).step n.lockup (.deliver i ⟨result, 0, sent⟩)
      return { n with lockup }
    | .consult i => do
      let (receiverId, method, attachedDeposit) ← expect (callIn n.lockup i) "No such call"
      ensure (receiverId = n.whitelistId) "The receipt is for another contract"
      let result := whitelistAnswer n.whitelist method
      let sent := if result.isSuccess then 0 else attachedDeposit
      let lockup ← (Lockup.system sha256).step n.lockup (.deliver i ⟨result, 0, sent⟩)
      return { n with lockup }
    | .execute i env => do
      let (receiverId, method, attachedDeposit) ← expect (callIn n.lockup i) "No such call"
      let s ← expect (n.pools receiverId) "The receipt is for another contract"
      ensure (env.currentAccountId = receiverId ∧
        env.predecessorAccountId = n.lockup.accountId ∧ env.attachedDeposit = attachedDeposit)
        "The receipt is from the lockup"
      let (t, result, sent) := hosted s env method
      let lockup ← (Lockup.system sha256).step n.lockup
        (.deliver i ⟨result, StakingPool.claim t n.lockup.accountId, sent⟩)
      return { n with lockup, pools := Function.update n.pools receiverId (some t) }
    | .pool accountId c => do
      let s ← expect (n.pools accountId) "There is no staking pool"
      ensure (c.env.currentAccountId = accountId) "The receipt is for another account"
      ensure (c.env.predecessorAccountId ≠ n.lockup.accountId) "The lockup calls by its receipts"
      let (t, promises) ← s.call c
      ensure (StakingPool.paid (StakingPool.payments promises) ≤ c.env.accountBalance)
        "Exceeded the account balance"
      let lockup ← (Lockup.system sha256).step n.lockup
        (.hold accountId (StakingPool.claim t n.lockup.accountId))
      return { n with lockup, pools := Function.update n.pools accountId (some t) }
    | .whitelist predecessorAccountId method => do
      let (whitelist, _) ← n.whitelist.call predecessorAccountId method
      return { n with whitelist }
    | .deploy env ownerId stakePublicKey rewardFeeFraction => do
      ensure (n.pools env.currentAccountId = none ∧ env.currentAccountId ≠ n.lockup.accountId ∧
        env.currentAccountId ≠ n.whitelistId) "There is a contract already"
      let (s, _) ← StakingContract.new env false ownerId stakePublicKey rewardFeeFraction
      return { n with pools := Function.update n.pools env.currentAccountId (some s) }

/-! ## What a step does -/

/-- What one step does. -/
inductive Moves (sha256 : List UInt8 → Lockup.Hash) (n : Network) : Label → Network → Prop
  | lockup {l : Lockup.Label} {lockup : World} (hundirected : Undirected n.lockup l)
    (hstep : (Lockup.system sha256).step n.lockup l = .ok lockup) :
    Moves sha256 n (.lockup l) { n with lockup }
  | answered {i : ℕ} {result : PromiseResult} {sent : ℕ} {receiverId : AccountId}
    {method : ExternalMethod} {attachedDeposit : ℕ} {lockup : World}
    (hcall : callIn n.lockup i = some (receiverId, method, attachedDeposit))
    (hforeign : n.Foreign receiverId)
    (hstep : (Lockup.system sha256).step n.lockup (.deliver i ⟨result, 0, sent⟩) = .ok lockup) :
    Moves sha256 n (.answer i result sent) { n with lockup }
  | consulted {i : ℕ} {method : ExternalMethod} {attachedDeposit : ℕ} {sent : ℕ} {lockup : World}
    (hcall : callIn n.lockup i = some (n.whitelistId, method, attachedDeposit))
    (hstep : (Lockup.system sha256).step n.lockup
      (.deliver i ⟨whitelistAnswer n.whitelist method, 0, sent⟩) = .ok lockup) :
    Moves sha256 n (.consult i) { n with lockup }
  | executed {i : ℕ} {env : Env} {receiverId : AccountId} {method : ExternalMethod}
    {s t : StakingContract} {result : PromiseResult} {sent : ℕ} {lockup : World}
    (hcall : callIn n.lockup i = some (receiverId, method, env.attachedDeposit))
    (hpool : n.pools receiverId = some s) (hme : env.predecessorAccountId = n.lockup.accountId)
    (hhosted : hosted s env method = (t, result, sent))
    (hstep : (Lockup.system sha256).step n.lockup
      (.deliver i ⟨result, StakingPool.claim t n.lockup.accountId, sent⟩) = .ok lockup) :
    Moves sha256 n (.execute i env)
      { n with lockup, pools := Function.update n.pools receiverId (some t) }
  | called {accountId : AccountId} {c : StakingPool.Call} {s t : StakingContract} {lockup : World}
    (hpool : n.pools accountId = some s)
    (hother : c.env.predecessorAccountId ≠ n.lockup.accountId)
    (hcall : StakingPool.pool.step s c = .ok t)
    (hstep : (Lockup.system sha256).step n.lockup
      (.hold accountId (StakingPool.claim t n.lockup.accountId)) = .ok lockup) :
    Moves sha256 n (.pool accountId c)
      { n with lockup, pools := Function.update n.pools accountId (some t) }
  | listed {predecessorAccountId : AccountId} {method : Whitelist.Method}
    {whitelist : WhitelistContract} {changed : Bool}
    (hcall : n.whitelist.call predecessorAccountId method = .ok (whitelist, changed)) :
    Moves sha256 n (.whitelist predecessorAccountId method) { n with whitelist }
  | deployed {env : Env} {ownerId : AccountId} {stakePublicKey : PublicKey}
    {rewardFeeFraction : RewardFeeFraction} {s : StakingContract}
    (hnone : n.pools env.currentAccountId = none)
    (hself : env.currentAccountId ≠ n.lockup.accountId)
    (hwhitelist : env.currentAccountId ≠ n.whitelistId) (hnew : StakingPool.Deployed s) :
    Moves sha256 n (.deploy env ownerId stakePublicKey rewardFeeFraction)
      { n with pools := Function.update n.pools env.currentAccountId (some s) }

section Steps

variable {sha256 : List UInt8 → Lockup.Hash} {n n' : Network} {l : Label}

/-- Every step is one of the moves. -/
theorem moves_of_step (h : (system sha256).step n l = .ok n') : Moves sha256 n l n' := by
  cases l with
  | lockup l =>
    simp only [system, bind_eq_ok, ensure_eq_ok, pure_eq_ok] at h
    obtain ⟨_, hundirected, lockup, hstep, rfl⟩ := h
    exact .lockup hundirected hstep
  | answer i result sent =>
    simp only [system, bind_eq_ok, expect_eq_ok, ensure_eq_ok, pure_eq_ok] at h
    obtain ⟨⟨receiverId, method, attachedDeposit⟩, hcall, _, hforeign, lockup, hstep, rfl⟩ := h
    exact .answered hcall hforeign hstep
  | consult i =>
    simp only [system, bind_eq_ok, expect_eq_ok, ensure_eq_ok, pure_eq_ok] at h
    obtain ⟨⟨receiverId, method, attachedDeposit⟩, hcall, _, rfl, lockup, hstep, rfl⟩ := h
    exact .consulted hcall hstep
  | execute i env =>
    simp only [system, bind_eq_ok, expect_eq_ok, ensure_eq_ok, pure_eq_ok] at h
    obtain ⟨⟨receiverId, method, attachedDeposit⟩, hcall, s, hpool, _, ⟨-, hme, rfl⟩, lockup, hstep,
      rfl⟩ := h
    exact .executed hcall hpool hme rfl hstep
  | pool accountId c =>
    simp only [system, bind_eq_ok, expect_eq_ok, ensure_eq_ok, pure_eq_ok] at h
    obtain ⟨s, hpool, _, -, _, hother, ⟨t, promises⟩, hcall, _, -, lockup, hstep, rfl⟩ := h
    exact .called hpool hother (StakingPool.step_of_call hcall) hstep
  | whitelist predecessorAccountId method =>
    simp only [system, bind_eq_ok, pure_eq_ok] at h
    obtain ⟨⟨whitelist, changed⟩, hcall, rfl⟩ := h
    exact .listed hcall
  | deploy env ownerId stakePublicKey rewardFeeFraction =>
    simp only [system, bind_eq_ok, ensure_eq_ok, pure_eq_ok] at h
    obtain ⟨_, ⟨hnone, hself, hwhitelist⟩, ⟨s, promises⟩, hnew, rfl⟩ := h
    exact .deployed hnone hself hwhitelist ⟨_, _, _, _, _, _, hnew⟩

theorem callIn_eq_some {w : World} {i : ℕ} {receiverId : AccountId} {method : ExternalMethod}
    {attachedDeposit : ℕ} : callIn w i = some (receiverId, method, attachedDeposit) ↔
      ∃ callback, w.receipts[i]? =
        some (.promise (.functionCall receiverId method attachedDeposit callback)) := by
  unfold callIn
  split
  · next r m d callback hget => simp [hget]
  · next hget =>
    simp only [reduceCtorEq, false_iff, not_exists]
    exact fun callback heq => hget _ _ _ _ heq

/-! ## What is held -/

/-- The lockup's view of what is held for it is what the pools owe it, and no pool is at its own
account or at the whitelist's. -/
structure Agrees (n : Network) : Prop where
  held : ∀ accountId, n.lockup.held accountId = n.claimAt accountId
  self : n.pools n.lockup.accountId = none
  apart : n.pools n.whitelistId = none

theorem claimAt_of_pool {accountId : AccountId} {s : StakingContract}
    (h : n.pools accountId = some s) :
    n.claimAt accountId = StakingPool.claim s n.lockup.accountId := by
  simp only [Network.claimAt, h]

theorem claimAt_of_none {accountId : AccountId} (h : n.pools accountId = none) :
    n.claimAt accountId = 0 := by
  simp only [Network.claimAt, h]

/-- A call of another account is answered; one that the lockup sends to itself fails. -/
theorem answered_of_deliver {w w' : World} {i : ℕ} {outcome : Outcome} {receiverId : AccountId}
    {method : ExternalMethod} {attachedDeposit : ℕ}
    (hcall : callIn w i = some (receiverId, method, attachedDeposit))
    (h : (Lockup.system sha256).step w (.deliver i outcome) = .ok w') :
    w'.held = Function.update w.held receiverId outcome.held ∧
      (receiverId = w.accountId → outcome.result = .failed) := by
  obtain ⟨callback, hget⟩ := callIn_eq_some.mp hcall
  have htaken : ∀ {r : Receipt} {rest : List Receipt}, takeAt w.receipts i = some (r, rest) →
      r = .promise (.functionCall receiverId method attachedDeposit callback) :=
    fun htake => Option.some.inj ((takeAt_eq_some.mp htake).1.symm.trans hget)
  cases Lockup.moves_of_step h with
  | answered htake hself =>
    cases htaken htake
    exact ⟨rfl, hself⟩
  | transferred htake => cases htaken htake
  | bounced htake => cases htaken htake
  | keyAdded htake => cases htaken htake
  | credited htake hreceipt =>
    rcases hreceipt with rfl | ⟨_, rfl⟩ <;> cases htaken htake

/-- What calls no contract leaves what is held. -/
theorem held_of_undirected {w w' : World} {l : Lockup.Label} (hundirected : Undirected w l)
    (h : (Lockup.system sha256).step w l = .ok w') : w'.held = w.held := by
  cases Lockup.moves_of_step h with
  | @answered i outcome receiverId method deposit callback rest htake hself =>
    have hget := callIn_eq_some.mpr ⟨callback, (takeAt_eq_some.mp htake).1⟩
    cases hget.symm.trans hundirected
  | holds => exact hundirected.elim
  | _ => rfl

/-- A step that changes what an account with or without a pool owes, and records it. -/
theorem Agrees.update (h : Agrees n) {lockup : World} {accountId : AccountId}
    {s : Option StakingContract} {held : ℕ} (hid : lockup.accountId = n.lockup.accountId)
    (hheld : lockup.held = Function.update n.lockup.held accountId held)
    (hclaim : held = ({ n with lockup, pools := Function.update n.pools accountId s } :
      Network).claimAt accountId)
    (hself : accountId = n.lockup.accountId → s = none)
    (hapart : accountId = n.whitelistId → s = none) :
    Agrees { n with lockup, pools := Function.update n.pools accountId s } := by
  refine ⟨?_, ?_, ?_⟩
  · intro id
    by_cases hid' : id = accountId
    · rw [hheld, hid', Function.update_self]
      exact hclaim
    · rw [hheld, Function.update_of_ne hid', h.held]
      simp only [Network.claimAt, Function.update_of_ne hid', hid]
  · show Function.update n.pools accountId s lockup.accountId = none
    rw [hid, Function.update_apply]
    split
    · next heq => exact hself heq.symm
    · exact h.self
  · show Function.update n.pools accountId s n.whitelistId = none
    rw [Function.update_apply]
    split
    · next heq => exact hapart heq.symm
    · exact h.apart

/-- An account without a pool owes nothing. -/
theorem Agrees.answered (h : Agrees n) {lockup : World} {accountId : AccountId}
    (hid : lockup.accountId = n.lockup.accountId)
    (hheld : lockup.held = Function.update n.lockup.held accountId 0)
    (hnone : n.pools accountId = none) : Agrees { n with lockup } := by
  have hupdate := h.update (s := none) hid hheld (by simp [Network.claimAt]) (fun _ => rfl)
    (fun _ => rfl)
  rwa [← hnone, Function.update_eq_self] at hupdate

/-- Every step keeps the lockup's view. -/
theorem Agrees.step (h : Agrees n) (hmoves : Moves sha256 n l n') : Agrees n' := by
  cases hmoves with
  | lockup hundirected hstep =>
    have hid := Lockup.accountId_of_moves (Lockup.moves_of_step hstep)
    have hheld := held_of_undirected hundirected hstep
    refine ⟨?_, ?_, h.apart⟩
    · intro id
      simp only [hheld, h.held, Network.claimAt, hid]
    · simp only [hid, h.self]
  | answered hcall hforeign hstep =>
    exact h.answered (Lockup.accountId_of_moves (Lockup.moves_of_step hstep))
      (answered_of_deliver hcall hstep).1 hforeign.1
  | consulted hcall hstep =>
    exact h.answered (Lockup.accountId_of_moves (Lockup.moves_of_step hstep))
      (answered_of_deliver hcall hstep).1 h.apart
  | @executed _ _ receiverId _ _ _ _ _ _ hcall hpool hme hhosted hstep =>
    have hid := Lockup.accountId_of_moves (Lockup.moves_of_step hstep)
    refine h.update hid (answered_of_deliver hcall hstep).1 ?_ ?_ ?_
    · simp only [Network.claimAt, Function.update_self, hid]
    · rintro rfl
      cases h.self.symm.trans hpool
    · rintro rfl
      cases h.apart.symm.trans hpool
  | @called accountId _ _ t lockup hpool hother hcall hstep =>
    have hid := Lockup.accountId_of_moves (Lockup.moves_of_step hstep)
    have hheld : lockup.held = Function.update n.lockup.held accountId
        (StakingPool.claim t n.lockup.accountId) := by
      cases Lockup.moves_of_step hstep
      rfl
    refine h.update hid hheld ?_ ?_ ?_
    · simp only [Network.claimAt, Function.update_self, hid]
    · rintro rfl
      cases h.self.symm.trans hpool
    · rintro rfl
      cases h.apart.symm.trans hpool
  | listed hcall => exact ⟨h.held, h.self, h.apart⟩
  | @deployed env _ _ _ s hnone hself hwhitelist hnew =>
    have hzero : StakingPool.claim s n.lockup.accountId = 0 := by
      simp [StakingPool.claim, StakingContract.internalGetAccount, hnew.fresh.accounts, default,
        SharePool.worth]
    have hheld : n.lockup.held = Function.update n.lockup.held env.currentAccountId 0 := by
      rw [← claimAt_of_none hnone, ← h.held, Function.update_eq_self]
    refine h.update rfl hheld ?_ (fun heq => absurd heq hself) (fun heq => absurd heq hwhitelist)
    simp only [Network.claimAt, Function.update_self, hzero]

end Steps

end UncContracts.Delegation
